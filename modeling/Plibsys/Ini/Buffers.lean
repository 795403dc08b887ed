/-
  The buffers of `p_ini_file_parse` (`pinifile.c`).

  The parser keeps the line, the key and the value in three arrays of `P_INI_FILE_MAX_LINE + 1`
  bytes, and trimmed strings in memory of their size.  Here every access to one of them is checked:
  the parse fails (`none`) when an index is outside, or when a string has no terminator.  The arrays
  are not initialised, and any allocation may fail.  When the trimmed line cannot be allocated, the
  line buffer is not zeroed before the next line is read into it; its last byte is a NUL all the same.

  `pIniFileParseBuf_eq`: no access fails, and if no allocation does the parse is that of `pIniFileParse`.
-/
import Plibsys.Ini.ListValues
import Plibsys.Lib.Checked

namespace Plibsys

open Checked Scanning

/-- `pchar [P_INI_FILE_MAX_LINE + 1]`. -/
abbrev LineBuffer := Buffer UInt8 (iniFileMaxLine + 1)

/-- The arrays of `p_ini_file_parse`. -/
structure IniBuffers where
  src_line : LineBuffer
  key : LineBuffer
  value : LineBuffer

/-- Which allocations of one iteration succeed: those of the three calls of `p_strchomp`, that of the new
    section or parameter, and that of `p_list_prepend`. -/
structure LineMallocs where
  dst_line : Bool
  key : Bool
  value : Bool
  entry : Bool
  link : Bool
  deriving DecidableEq, Repr

/-- No allocation fails. -/
def LineMallocs.all : LineMallocs := ⟨true, true, true, true, true⟩

/-! ## The trimmed line -/

/-- Compare a byte of a buffer. -/
def isAt (buf : List UInt8) (pos : ℤ) (c : UInt8) : Option Bool := (getAt buf pos).map (· == c)

/-- `bom_shift`; a comparison is made only if the ones before it hold. -/
def bomShiftBuf (src_line : List UInt8) : Option ℕ := do
  if ← isAt src_line 0 0xEF <&&> isAt src_line 1 0xBB <&&> isAt src_line 2 0xBF then
    return 3
  else if ← (isAt src_line 0 0xFE <&&> isAt src_line 1 0xFF) <||>
      (isAt src_line 0 0xFF <&&> isAt src_line 1 0xFE) then
    return 2
  else if ← isAt src_line 0 0x00 <&&> isAt src_line 1 0x00 <&&> isAt src_line 2 0xFE <&&>
      isAt src_line 3 0xFF then
    return 4
  else if ← isAt src_line 0 0xFF <&&> isAt src_line 1 0xFE <&&> isAt src_line 2 0x00 <&&>
      isAt src_line 3 0x00 then
    return 4
  else
    return 0

/-- `p_strchomp` of the string at a position: the result has its own memory, or is `NULL` (`some none`). -/
def strchompAt (malloc : Bool) (buf : List UInt8) (pos : ℕ) : Option (Option (List UInt8)) := do
  let str ← readString 0 buf pos
  let ret ← pStrchomp str
  return if malloc then some (ret ++ [0]) else none

/-- A NUL cuts the string if it does not fit ("this should not happen"). -/
def cutBuf (str : List UInt8) : Option (List UInt8) := do
  if (← readString 0 str 0).length > iniFileMaxLine then setAt str iniFileMaxLine 0 else return str

/-- `dst_line`: the line without its mark, trimmed; or `NULL`. -/
def dstLineBuf (malloc : Bool) (src_line : LineBuffer) : Option (Option (List UInt8)) := do
  let bom_shift ← bomShiftBuf src_line.elems
  match ← strchompAt malloc src_line.elems bom_shift with
  | none => return none
  | some dst_line => return some (← cutBuf dst_line)

/-- Trim the string in a buffer, and copy it back; if `tmp_str` is `NULL`, there is no result. -/
def trimBuf (malloc : Bool) (buf : LineBuffer) : Option (Option LineBuffer) := do
  match ← strchompAt malloc buf.elems 0 with
  | none => return none
  | some tmp_str =>
    let tmp_str ← cutBuf tmp_str
    return some (← buf.write 0 ((← readString 0 tmp_str 0) ++ [0]))

/-- Two quotes stand for the empty value: `value[0] = '\0'`. -/
def unquoteBuf (value : LineBuffer) : Option LineBuffer := do
  let val ← readString 0 value.elems 0
  if val = [ascii '"', ascii '"'] ∨ val = [ascii '\'', ascii '\''] then value.write 0 [0] else return value

/-! ## Formats -/

/-- A section header: whether there is one; its name is stored in `key`. -/
def matchSection (dst_line : List UInt8) (b : IniBuffers) : Option (Bool × IniBuffers) := do
  if ← isAt dst_line 0 (ascii '[') <&&>
      (do isAt dst_line (((← readString 0 dst_line 0).length : ℤ) - 1) (ascii ']')) then
    match sscanf (← readString 0 dst_line 0) sectionFormat with
    | [] => return (false, b)
    | [run] =>
      let key ← b.key.write 0 (run ++ [0])
      return (true, { b with key })
    | _ => none
  else
    return (false, b)

/-- A format with two runs: whether both are found.  What is found is stored. -/
def matchBoth (fmt : List (Directive UInt8)) (dst_line : List UInt8) (b : IniBuffers) :
    Option (Bool × IniBuffers) := do
  match sscanf (← readString 0 dst_line 0) fmt with
  | [] => return (false, b)
  | [run] =>
    let key ← b.key.write 0 (run ++ [0])
    return (false, { b with key })
  | [run, run'] =>
    let key ← b.key.write 0 (run ++ [0])
    let value ← b.value.write 0 (run' ++ [0])
    return (true, { b with key, value })
  | _ => none

/-- A parameter: the three formats, in order. -/
def matchParameter (dst_line : List UInt8) (b : IniBuffers) : Option (Bool × IniBuffers) := do
  let (found, b) ← matchBoth (quotedFormat (ascii '"')) dst_line b
  if found then return (true, b)
  let (found, b) ← matchBoth (quotedFormat (ascii '\'')) dst_line b
  if found then return (true, b)
  matchBoth plainFormat dst_line b

/-! ## Parsing -/

/-- `IniParse.newSection`: without its memory the finished section is lost, or there is no new one. -/
def IniParse.newSectionOr (mallocs : LineMallocs) (p : IniParse) (key : CString) : IniParse :=
  ⟨if mallocs.link then p.close else p.sections, if mallocs.entry then some ⟨key, []⟩ else none⟩

/-- `IniParse.newParameter`: without its memory the parameter is lost. -/
def IniParse.newParameterOr (mallocs : LineMallocs) (p : IniParse) (param : PIniParameter) : IniParse :=
  if mallocs.entry && mallocs.link then p.newParameter param else p

/-- What the trimmed line says. -/
def iniParseEntryBuf (mallocs : LineMallocs) (p : IniParse) (b : IniBuffers) (dst_line : List UInt8) :
    Option (IniParse × IniBuffers) := do
  let (found, b) ← matchSection dst_line b
  if found then
    match ← trimBuf mallocs.key b.key with
    | none => return (p, b)
    | some key =>
      let name ← readString 0 key.elems 0
      return (p.newSectionOr mallocs name, { b with key })
  else
    let (found, b) ← matchParameter dst_line b
    if found then
      match ← trimBuf mallocs.key b.key with
      | none => return (p, b)
      | some key =>
        match ← trimBuf mallocs.value b.value with
        | none => return (p, { b with key })
        | some value =>
          let value ← unquoteBuf value
          let name ← readString 0 key.elems 0
          let val ← readString 0 value.elems 0
          return (p.newParameterOr mallocs ⟨name, val⟩, { b with key, value })
    else
      return (p, b)

/-- `memset (src_line, 0, sizeof (src_line))`. -/
def clearLine (b : IniBuffers) : Option IniBuffers := do
  let src_line ← b.src_line.write 0 (List.replicate (iniFileMaxLine + 1) 0)
  return { b with src_line }

/-- One iteration of the loop of `p_ini_file_parse`, after the line has been read.  The line buffer is zeroed at
    its end, but not when `dst_line` is `NULL` (`continue`). -/
def iniParseLineBuf (mallocs : LineMallocs) (p : IniParse) (b : IniBuffers) : Option (IniParse × IniBuffers) := do
  match ← dstLineBuf mallocs.dst_line b.src_line with
  | none => return (p, b)
  | some dst_line =>
    let (p, b) ← iniParseEntryBuf mallocs p b dst_line
    return (p, ← clearLine b)

/-- The loop, with a bound on the number of its iterations. -/
def iniParseLoopBuf : ℕ → (ℕ → LineMallocs) → IniParse → IniBuffers → List UInt8 → Option IniParse
  | 0, _, _, _, _ => none
  | fuel + 1, mallocs, p, b, in_file =>
    match fgets (iniFileMaxLine + 1) in_file with
    | none => some p
    | some (line, rest) => do
      let src_line ← b.src_line.write 0 (line ++ [0])
      let (p, b) ← iniParseLineBuf (mallocs 0) p { b with src_line }
      iniParseLoopBuf fuel (fun n => mallocs (n + 1)) p b rest

/-- `p_ini_file_parse`, with what is in its arrays at the start, and the answers of the allocator in the
    iterations (`mallocs`) and in the last `p_list_append` (`append`). -/
def pIniFileParseBuf (mallocs : ℕ → LineMallocs) (append : Bool) (b : IniBuffers)
    (fopen : CString → Except (pint × pint) (List UInt8)) (file : PIniFile) :
    Option (PIniFile × Except IniError Unit) :=
  if file.is_parsed then some (file, .ok ())
  else match fopen file.path with
    | .error (code, native_code) => some (file, .error ⟨code, native_code, "Failed to open file for reading"⟩)
    | .ok in_file => do
      let b ← clearLine b
      let p ← iniParseLoopBuf (in_file.length + 1) mallocs ⟨file.sections, none⟩ b in_file
      return ({ file with sections := if append then p.finish else p.sections, is_parsed := true }, .ok ())

variable {b : IniBuffers} {buf : LineBuffer} {line : List UInt8} {str : CString} {c : UInt8} {pos : ℕ}

/-! ## The trimmed line -/

theorem isAt_eq {buf : List UInt8} (h : pos < buf.length) (c : UInt8) :
    isAt buf pos c = some (decide (buf[pos]? = some c)) := by
  rw [isAt, getAt_natCast, List.getElem?_eq_getElem h, Option.map_some, Option.some_inj, beq_eq_decide]
  exact decide_eq_decide.2 Option.some_inj.symm

theorem andM_some (x y : Bool) : (some x <&&> some y) = some (x && y) := by cases x <;> rfl

theorem andM_false (y : Option Bool) : (some false <&&> y) = some false := rfl

theorem orM_some (x y : Bool) : (some x <||> some y) = some (x || y) := by cases x <;> rfl

/-- The bytes of a mark are inside of the buffer. -/
theorem bomShiftBuf_eq {src_line : List UInt8} (h : 4 ≤ src_line.length) :
    bomShiftBuf src_line = some (bomShift src_line) := by
  have h0 : ∀ c, isAt src_line 0 c = _ := @isAt_eq 0 _ (by omega)
  have h1 : ∀ c, isAt src_line 1 c = _ := @isAt_eq 1 _ (by omega)
  have h2 : ∀ c, isAt src_line 2 c = _ := @isAt_eq 2 _ (by omega)
  have h3 : ∀ c, isAt src_line 3 c = _ := @isAt_eq 3 _ (by omega)
  simp only [bomShiftBuf, bomShift, h0, h1, h2, h3, andM_some, orM_some, Option.bind_eq_bind, Option.bind_some,
    Bool.and_eq_true, Bool.or_eq_true, decide_eq_true_eq]
  split_ifs <;> rfl

/-- The string is in the buffer. -/
def HasString (buf : LineBuffer) (str : CString) : Prop := readString 0 buf.elems 0 = some str

theorem strchompAt_eq {buf : List UInt8} (h : readString 0 buf pos = some str) (malloc : Bool) :
    strchompAt malloc buf pos = some (if malloc then some (trim isspace str ++ [0]) else none) := by
  rw [strchompAt, h, Option.bind_eq_bind, Option.bind_some, pStrchomp_eq]
  rfl

theorem readString_nul (hnul : 0 ∉ str) : readString 0 (str ++ [0]) 0 = some str := readString_append hnul

/-- A string that fits is not cut. -/
theorem cutBuf_eq (hnul : 0 ∉ str) (hfits : str.length ≤ iniFileMaxLine) :
    cutBuf (str ++ [0]) = some (str ++ [0]) := by
  rw [cutBuf, readString_nul hnul, Option.bind_eq_bind, Option.bind_some, if_neg (Nat.not_lt.2 hfits)]
  rfl

theorem nul_notMem_part {part : CString} (hnul : 0 ∉ str) (h : part <:+: str) : 0 ∉ part :=
  fun hmem => hnul (h.subset hmem)

/-- The trimmed string fits where the string was. -/
theorem trimBuf_eq (h : HasString buf str) (malloc : Bool) : ∃ buf', trimBuf malloc buf =
    some (if malloc then some buf' else none) ∧ HasString buf' (trim isspace str) := by
  obtain ⟨hlt, hnul⟩ := buf.length_of_readString h
  have hnul' := nul_notMem_part hnul (trim_isInfix isspace str)
  have hle := length_trim_le isspace str
  obtain ⟨buf', hwrite, hread⟩ := buf.write_string hnul' (Nat.lt_of_le_of_lt hle hlt)
  refine ⟨buf', ?_, hread⟩
  rw [trimBuf, strchompAt_eq h, Option.bind_eq_bind, Option.bind_some]
  cases malloc with
  | false => rfl
  | true =>
    rw [if_pos rfl, if_pos rfl]
    dsimp only
    rw [cutBuf_eq hnul' (by omega), Option.bind_eq_bind, Option.bind_some, readString_nul hnul', Option.bind_some,
      hwrite]
    rfl

/-- The last byte of the line buffer is a NUL: every string in it has an end. -/
def Terminated (src_line : LineBuffer) : Prop := src_line.elems[iniFileMaxLine]? = some 0

/-- The trimmed line of a buffer. -/
def bufferLine (src_line : LineBuffer) : CString :=
  trim isspace (stringAt src_line.elems (bomShift src_line.elems))

theorem bomShift_le (src_line : List UInt8) : bomShift src_line ≤ 4 := by
  unfold bomShift
  split_ifs <;> decide

/-- **The trimmed line.** -/
theorem dstLineBuf_eq (hterm : Terminated buf) (malloc : Bool) :
    dstLineBuf malloc buf = some (if malloc then some (bufferLine buf ++ [0]) else none) ∧
      0 ∉ bufferLine buf ∧ (bufferLine buf).length ≤ iniFileMaxLine := by
  have hlen := buf.length_elems
  have hpos : bomShift buf.elems ≤ iniFileMaxLine := (bomShift_le _).trans (by decide)
  have hlast : (buf.elems.drop (bomShift buf.elems))[iniFileMaxLine - bomShift buf.elems]? = some 0 := by
    rw [List.getElem?_drop, Nat.add_sub_cancel' hpos]
    exact hterm
  have hread : readString 0 buf.elems (bomShift buf.elems) = some (stringAt buf.elems (bomShift buf.elems)) :=
    untilNul_of_mem (List.mem_of_getElem? hlast)
  obtain ⟨hstring, t, ht⟩ := exists_of_untilNul hread
  have hfits : (stringAt buf.elems (bomShift buf.elems)).length ≤ iniFileMaxLine := by
    have hdrop := congrArg List.length ht
    rw [List.length_drop, List.length_append, List.length_cons] at hdrop
    omega
  have hnul : 0 ∉ bufferLine buf := nul_notMem_part hstring (trim_isInfix ..)
  have hle : (bufferLine buf).length ≤ iniFileMaxLine := (length_trim_le isspace _).trans hfits
  refine ⟨?_, hnul, hle⟩
  rw [dstLineBuf, bomShiftBuf_eq (by rw [hlen]; decide), Option.bind_eq_bind, Option.bind_some,
    strchompAt_eq hread,
    Option.bind_eq_bind, Option.bind_some, ← bufferLine]
  cases malloc with
  | false => rfl
  | true =>
    rw [if_pos rfl]
    dsimp only
    rw [cutBuf_eq hnul hle]
    rfl

theorem unquoteBuf_eq (h : HasString buf str) : ∃ buf', unquoteBuf buf = some buf' ∧
    HasString buf' (unquoteEmpty str) := by
  rw [unquoteBuf, h, unquoteEmpty, Option.bind_eq_bind, Option.bind_some]
  split_ifs
  · exact buf.write_string (s := []) List.not_mem_nil (by decide)
  · exact ⟨buf, rfl, h⟩

/-! ## Formats -/

/-- The first byte of a string with its NUL. -/
theorem isAt_first (hc : c ≠ 0) : isAt (str ++ [0]) 0 c = some (decide (str.head? = some c)) := by
  have h := @isAt_eq 0 (str ++ [0]) (by simp) c
  cases str with
  | nil =>
    refine h.trans (congrArg some (decide_eq_decide.2 ?_))
    simp [Ne.symm hc]
  | cons d str => exact h

/-- The last byte of a string that is not empty. -/
theorem isAt_last (hne : str ≠ []) :
    isAt (str ++ [0]) ((str.length : ℤ) - 1) c = some (decide (str.getLast? = some c)) := by
  have hpos := List.length_pos_iff.2 hne
  rw [show (str.length : ℤ) - 1 =
    ((str.length - 1 : ℕ) : ℤ) by omega, isAt_eq (by rw [List.length_append, List.length_singleton]; omega),
    List.getElem?_append_left (by omega), List.getLast?_eq_getElem?]

theorem matchSection_eq (hnul : 0 ∉ str) (hfits : str.length ≤ iniFileMaxLine) (b : IniBuffers) :
    ∃ b', matchSection (str ++ [0]) b = some ((scanSection str).isSome, b') ∧
      ∀ key ∈ scanSection str, HasString b'.key key := by
  have hpart : ∀ run ∈ sscanf str sectionFormat, 0 ∉ run ∧ run.length < iniFileMaxLine + 1 := fun run hrun =>
    ⟨nul_notMem_part hnul (isInfix_of_mem_scan hrun), Nat.lt_succ_of_le ((length_scan_le hrun).trans hfits)⟩
  have hlen : (sscanf str sectionFormat).length ≤ 1 := length_scan isspace sectionFormat str
  rw [matchSection, isAt_first (by decide), readString_nul hnul, scanSection]
  simp only [Option.bind_eq_bind, Option.bind_some]
  by_cases hopen : str.head? = some (ascii '[')
  · have hne : str ≠ [] := by
      rintro rfl
      cases hopen
    rw [isAt_last hne, andM_some, Option.bind_some]
    by_cases hclose : str.getLast? = some (ascii ']')
    · generalize sscanf str sectionFormat = runs at hpart hlen ⊢
      simp only [hopen, hclose, decide_true, if_true, and_self]
      rcases runs with _ | ⟨run, _ | ⟨run', runs⟩⟩
      · exact ⟨b, rfl, by simp⟩
      · obtain ⟨hnul1, hlt1⟩ := hpart run (by simp)
        obtain ⟨key, hkey, hholds⟩ := b.key.write_string hnul1 hlt1
        refine ⟨{ b with key }, ?_, ?_⟩
        · simp only [hkey, Option.bind_some]
          rfl
        · rintro k hk
          cases hk
          exact hholds
      · simp only [List.length_cons] at hlen
        omega
    · exact ⟨b, by simp [hopen, hclose], by simp [hclose]⟩
  · rw [decide_eq_false hopen, andM_false, Option.bind_some]
    exact ⟨b, by simp [hopen], by simp [hopen]⟩

theorem matchBoth_eq (hnul : 0 ∉ str) (hfits : str.length ≤ iniFileMaxLine) (fmt : List (Directive UInt8))
    (hruns : fmt.countP Directive.isRun ≤ 2) (b : IniBuffers) :
    ∃ b', matchBoth fmt (str ++ [0]) b = some ((bothFound (sscanf str fmt)).isSome, b') ∧
      ∀ kv ∈ bothFound (sscanf str fmt), HasString b'.key kv.1 ∧ HasString b'.value kv.2 := by
  have hpart : ∀ run ∈ sscanf str fmt, 0 ∉ run ∧ run.length < iniFileMaxLine + 1 := fun run hrun =>
    ⟨nul_notMem_part hnul (isInfix_of_mem_scan hrun), Nat.lt_succ_of_le ((length_scan_le hrun).trans hfits)⟩
  have hlen : (sscanf str fmt).length ≤ 2 := (length_scan isspace fmt str).trans hruns
  rw [matchBoth, readString_nul hnul, Option.bind_eq_bind, Option.bind_some]
  generalize sscanf str fmt = runs at hpart hlen ⊢
  rcases runs with _ | ⟨run, _ | ⟨run', _ | ⟨run'', runs⟩⟩⟩
  · exact ⟨b, rfl, by simp [bothFound]⟩
  · obtain ⟨hnul1, hlt1⟩ := hpart run (by simp)
    obtain ⟨key, hkey, -⟩ := b.key.write_string hnul1 hlt1
    refine ⟨{ b with key }, ?_, by simp [bothFound]⟩
    simp only [hkey, Option.bind_eq_bind, Option.bind_some]
    rfl
  · obtain ⟨hnul1, hlt1⟩ := hpart run (by simp)
    obtain ⟨hnul2, hlt2⟩ := hpart run' (by simp)
    obtain ⟨key, hkey, hholds⟩ := b.key.write_string hnul1 hlt1
    obtain ⟨value, hvalue, hholds'⟩ := b.value.write_string hnul2 hlt2
    refine ⟨{ b with key, value }, ?_, ?_⟩
    · simp only [hkey, hvalue, Option.bind_eq_bind, Option.bind_some]
      rfl
    · rintro kv hkv
      cases hkv
      exact ⟨hholds, hholds'⟩
  · simp only [List.length_cons] at hlen
    omega

theorem matchParameter_eq (hnul : 0 ∉ str) (hfits : str.length ≤ iniFileMaxLine) (b : IniBuffers) :
    ∃ b', matchParameter (str ++ [0]) b = some ((scanParameter str).isSome, b') ∧
      ∀ kv ∈ scanParameter str, HasString b'.key kv.1 ∧ HasString b'.value kv.2 := by
  obtain ⟨b1, hmatch1, hholds1⟩ := matchBoth_eq hnul hfits (quotedFormat (ascii '"')) (Nat.le_refl 2) b
  obtain ⟨b2, hmatch2, hholds2⟩ := matchBoth_eq hnul hfits (quotedFormat (ascii '\'')) (Nat.le_refl 2) b1
  obtain ⟨b3, hmatch3, hholds3⟩ := matchBoth_eq hnul hfits plainFormat (Nat.le_refl 2) b2
  rw [matchParameter, hmatch1, scanParameter]
  simp only [Option.bind_eq_bind, Option.bind_some]
  rcases hboth1 : bothFound (sscanf str (quotedFormat (ascii '"'))) with _ | kv
  · rw [hmatch2]
    simp only [Option.isSome_none, Bool.false_eq_true, if_false, Option.bind_some, Option.none_or]
    rcases hboth2 : bothFound (sscanf str (quotedFormat (ascii '\''))) with _ | kv
    · exact ⟨b3, hmatch3, hholds3⟩
    · rw [hboth2] at hholds2
      exact ⟨b2, rfl, hholds2⟩
  · rw [hboth1] at hholds1
    exact ⟨b1, rfl, hholds1⟩

/-! ## Parsing -/

variable {p : IniParse} {in_file : List UInt8}

theorem clearLine_eq (b : IniBuffers) :
    ∃ b', clearLine b = some b' ∧ b'.src_line.elems = List.replicate (iniFileMaxLine + 1) 0 := by
  obtain ⟨src_line, hwrite, helems⟩ :=
    b.src_line.write_all (List.length_replicate (n := iniFileMaxLine + 1) (a := 0))
  refine ⟨{ b with src_line }, ?_, helems⟩
  rw [clearLine, hwrite]
  rfl

theorem terminated_of_zero (hzero : buf.elems = List.replicate (iniFileMaxLine + 1) 0) : Terminated buf := by
  rw [Terminated, hzero, List.getElem?_replicate, if_pos (Nat.lt_succ_self _)]

/-- A line is read into the buffer; its last byte stays a NUL, or becomes one. -/
theorem readIntoLine (hterm : Terminated buf) (hline : line.length ≤ iniFileMaxLine) :
    ∃ src_line, buf.write 0 (line ++ [0]) = some src_line ∧ Terminated src_line ∧
      (buf.elems = List.replicate (iniFileMaxLine + 1) 0 → src_line.elems = srcLine line) := by
  have hlen : 0 + (line ++ [0]).length ≤ iniFileMaxLine + 1 := by
    rw [List.length_append, List.length_singleton]
    omega
  obtain ⟨src_line, hwrite, helems⟩ := buf.write_eq hlen
  rw [List.take_zero, List.nil_append, Nat.zero_add, List.length_append, List.length_singleton] at helems
  refine ⟨src_line, hwrite, ?_, fun hzero => ?_⟩
  · rw [Terminated, helems]
    rcases Nat.eq_or_lt_of_le hline with heq | hlt
    · rw [List.append_assoc, List.getElem?_append_right (Nat.le_of_eq heq), heq, Nat.sub_self]
      rfl
    · rw [List.getElem?_append_right (by rw [List.length_append, List.length_singleton]; exact hlt),
        List.getElem?_drop, List.length_append, List.length_singleton, Nat.add_sub_cancel' hlt]
      exact hterm
  · rw [helems, hzero, srcLine, List.drop_replicate, List.append_assoc, List.singleton_append,
      ← List.replicate_succ]
    congr 2
    omega

/-- The values fit the buffer of `p_ini_file_parameter_list`. -/
def ValuesFit (sec : PIniSection) : Prop :=
  ∀ param ∈ sec.keys, param.value.length ≤ iniFileMaxLine ∧ 0 ∉ param.value

structure IniParse.Fits (p : IniParse) : Prop where
  sections : ∀ sec ∈ p.sections, ValuesFit sec
  current : ∀ sec ∈ p.current, ValuesFit sec

theorem IniParse.Fits.newSectionOr (h : p.Fits) (mallocs : LineMallocs) (key : CString) :
    (p.newSectionOr mallocs key).Fits := by
  obtain ⟨hsections, hcurrent⟩ := h
  refine ⟨fun sec hsec => ?_, fun sec hsec => ?_⟩
  · have hclose : sec ∈ p.sections ∨ p.current = some sec := by
      rw [IniParse.newSectionOr] at hsec
      dsimp only at hsec
      split at hsec
      · rw [IniParse.close.eq_def] at hsec
        split at hsec
        · exact .inl hsec
        · rename_i last hlast
          split at hsec
          · exact .inl hsec
          · rcases List.mem_cons.1 hsec with rfl | hsec
            · exact .inr hlast
            · exact .inl hsec
      · exact .inl hsec
    rcases hclose with hsec | hsec
    · exact hsections sec hsec
    · exact hcurrent sec hsec
  · rw [IniParse.newSectionOr] at hsec
    dsimp only at hsec
    split at hsec
    · rw [← Option.some.inj hsec]
      exact fun param hparam => absurd hparam List.not_mem_nil
    · cases hsec

theorem IniParse.Fits.newParameterOr {param : PIniParameter} (h : p.Fits) (mallocs : LineMallocs)
    (hparam : param.value.length ≤ iniFileMaxLine ∧ 0 ∉ param.value) : (p.newParameterOr mallocs param).Fits := by
  rw [IniParse.newParameterOr]
  split
  · obtain ⟨secs, cur⟩ := p
    cases cur with
    | none => exact h
    | some sec =>
      refine ⟨h.sections, fun sec' hsec' => ?_⟩
      rw [← Option.some.inj hsec']
      intro param' hmem
      rcases List.mem_cons.1 hmem with rfl | hmem
      · exact hparam
      · exact h.current sec rfl param' hmem
  · exact h

theorem IniParse.Fits.finish (h : p.Fits) (append : Bool) {sec : PIniSection}
    (hsec : sec ∈ if append then p.finish else p.sections) : ValuesFit sec := by
  split at hsec
  · rw [IniParse.finish.eq_def] at hsec
    split at hsec
    · exact h.sections sec hsec
    · rename_i last hlast
      split at hsec
      · exact h.sections sec hsec
      · rcases List.mem_append.1 hsec with hsec | hsec
        · exact h.sections sec hsec
        · rw [List.mem_singleton.1 hsec]
          exact h.current last hlast
  · exact h.sections sec hsec

variable (line) in
/-- **What the trimmed line says**: every access is inside of its buffer. -/
theorem iniParseEntryBuf_eq (hnul : 0 ∉ str) (hfits : str.length ≤ iniFileMaxLine) (mallocs : LineMallocs)
    (p : IniParse) (b : IniBuffers) :
    ∃ p' b', iniParseEntryBuf mallocs p b (str ++ [0]) = some (p', b') ∧ (p.Fits → p'.Fits) ∧
      (mallocs = .all → str = dstLine line → p' = (lineEntry line).elim p p.add) := by
  obtain ⟨b1, hsection, hkey⟩ := matchSection_eq hnul hfits b
  rw [iniParseEntryBuf, hsection, Option.bind_eq_bind, Option.bind_some]
  rcases hscan : scanSection str with _ | key
  · obtain ⟨b2, hparam, hboth⟩ := matchParameter_eq hnul hfits b1
    simp only [Option.isSome_none, Bool.false_eq_true, if_false, hparam, Option.bind_eq_bind, Option.bind_some]
    rcases hscan' : scanParameter str with _ | kv
    · refine ⟨p, b2, rfl, id, ?_⟩
      rintro - rfl
      rw [lineEntry, hscan, hscan']
      rfl
    · obtain ⟨hname, hval⟩ := hboth kv hscan'
      obtain ⟨key, htrim, hname⟩ := trimBuf_eq hname mallocs.key
      obtain ⟨value, htrim', hval⟩ := trimBuf_eq hval mallocs.value
      obtain ⟨value', hunquote, hval'⟩ := unquoteBuf_eq hval
      have hvalue := value'.length_of_readString hval'
      unfold HasString at hname hval'
      simp only [Option.isSome_some, if_true, htrim, Option.bind_some]
      rcases hm : mallocs.key with _ | _
      · refine ⟨p, b2, rfl, id, ?_⟩
        rintro rfl
        cases hm
      simp only [if_true, htrim', Option.bind_some]
      rcases hm' : mallocs.value with _ | _
      · refine ⟨p, _, rfl, id, ?_⟩
        rintro rfl
        cases hm'
      simp only [if_true, hunquote, hname, hval', Option.bind_some]
      refine ⟨_, _, rfl, fun h => ?_, ?_⟩
      · exact h.newParameterOr mallocs ⟨Nat.le_of_lt_succ hvalue.1, hvalue.2⟩
      · rintro rfl rfl
        rw [lineEntry, hscan, hscan']
        rfl
  · obtain ⟨buf, htrim, hname⟩ := trimBuf_eq (hkey key hscan) mallocs.key
    unfold HasString at hname
    simp only [Option.isSome_some, if_true, htrim, Option.bind_eq_bind, Option.bind_some]
    rcases hm : mallocs.key with _ | _
    · refine ⟨p, b1, rfl, id, ?_⟩
      rintro rfl
      cases hm
    simp only [if_true, hname, Option.bind_some]
    refine ⟨_, _, rfl, fun h => h.newSectionOr mallocs _, ?_⟩
    rintro rfl rfl
    rw [lineEntry, hscan]
    rfl

variable (line) in
/-- **One line**: every access is inside of its buffer, and strings in the line buffer keep an end. -/
theorem iniParseLineBuf_eq (hterm : Terminated b.src_line) (mallocs : LineMallocs) (p : IniParse) :
    ∃ p' b', iniParseLineBuf mallocs p b = some (p', b') ∧ Terminated b'.src_line ∧ (p.Fits → p'.Fits) ∧
      (mallocs = .all → b.src_line.elems = srcLine line → line.length ≤ iniFileMaxLine →
        iniParseLine p line = some p' ∧ b'.src_line.elems = List.replicate (iniFileMaxLine + 1) 0) := by
  obtain ⟨hdst, hnul, hfits⟩ := dstLineBuf_eq hterm mallocs.dst_line
  rw [iniParseLineBuf, hdst, Option.bind_eq_bind, Option.bind_some]
  rcases hm : mallocs.dst_line with _ | _
  · refine ⟨p, b, rfl, hterm, id, ?_⟩
    rintro rfl
    cases hm
  · obtain ⟨p', b', hentry, hp', hall⟩ := iniParseEntryBuf_eq line hnul hfits mallocs p b
    obtain ⟨b'', hclear, hzero⟩ := clearLine_eq b'
    rw [if_pos rfl]
    dsimp only
    rw [hentry, Option.bind_eq_bind, Option.bind_some, hclear]
    refine ⟨p', b'', rfl, terminated_of_zero hzero, hp', fun hmallocs hsrc hline => ⟨?_, hzero⟩⟩
    rw [iniParseLine_eq p hline, hall hmallocs]
    rw [bufferLine, hsrc]
    rfl

/-- The loop, on a line buffer that ends with a NUL. -/
theorem iniParseLoopBuf_eq {fuel : ℕ} (hterm : Terminated b.src_line) (hfuel : in_file.length < fuel)
    (mallocs : ℕ → LineMallocs) (p : IniParse) :
    ∃ p', iniParseLoopBuf fuel mallocs p b in_file = some p' ∧ (p.Fits → p'.Fits) ∧
      ((∀ n, mallocs n = .all) → b.src_line.elems = List.replicate (iniFileMaxLine + 1) 0 →
        iniParseLoop fuel p in_file = some p') := by
  induction fuel generalizing mallocs p b in_file with
  | zero => cases hfuel
  | succ fuel ih =>
    rw [iniParseLoopBuf, iniParseLoop]
    rcases in_file with _ | ⟨c, in_file⟩
    · exact ⟨p, rfl, id, fun _ _ => rfl⟩
    · obtain ⟨line, rest, hfgets, -, hlen⟩ := fgets_cons c in_file
      have hline := length_of_fgets hfgets
      obtain ⟨src_line, hread, hterm', hsrc⟩ := readIntoLine hterm hline
      obtain ⟨p₁, b₁, hline', hterm₁, hp₁, hall⟩ :=
        iniParseLineBuf_eq line (b := { b with src_line }) hterm' (mallocs 0) p
      obtain ⟨p', hloop, hp', hall'⟩ := ih hterm₁ (Nat.lt_of_le_of_lt hlen (Nat.lt_of_succ_lt_succ hfuel))
        (fun n => mallocs (n + 1)) p₁
      rw [hfgets]
      simp only [hread, hline', Option.bind_eq_bind, Option.bind_some]
      refine ⟨p', hloop, fun h => hp' (hp₁ h), fun hmallocs hzero => ?_⟩
      obtain ⟨hparse, hzero'⟩ := hall (hmallocs 0) (hsrc hzero) hline
      rw [hparse, Option.bind_some]
      exact hall' (fun n => hmallocs (n + 1)) hzero'

/-- A file whose values fit is parsed to such a file, with no access outside of a buffer. -/
theorem pIniFileParseBuf_parse (mallocs : ℕ → LineMallocs) (append : Bool) (b : IniBuffers)
    (fopen : CString → Except (pint × pint) (List UInt8)) (file : PIniFile) :
    ∃ file' ret, pIniFileParseBuf mallocs append b fopen file = some (file', ret) ∧
      ((∀ sec ∈ file.sections, ValuesFit sec) → ∀ sec ∈ file'.sections, ValuesFit sec) ∧
      ((∀ n, mallocs n = .all) → append = true → pIniFileParse fopen file = some (file', ret)) := by
  obtain ⟨b', hclear, hzero⟩ := clearLine_eq b
  rw [pIniFileParseBuf, pIniFileParse]
  by_cases hparsed : file.is_parsed = true
  · rw [if_pos hparsed, if_pos hparsed]
    exact ⟨file, .ok (), rfl, id, fun _ _ => rfl⟩
  rw [if_neg hparsed, if_neg hparsed]
  rcases fopen file.path with e | in_file
  · exact ⟨file, _, rfl, id, fun _ _ => rfl⟩
  · have hfuel : in_file.length < in_file.length + 1 := Nat.lt_succ_self _
    obtain ⟨p, hloop, hfits, hall⟩ :=
      iniParseLoopBuf_eq (terminated_of_zero hzero) hfuel mallocs ⟨file.sections, none⟩
    simp only [hclear, hloop, Option.bind_eq_bind, Option.bind_some]
    refine ⟨_, _, rfl, fun hfile sec hsec => ?_, ?_⟩
    · exact (hfits ⟨hfile, fun sec hsec => by cases hsec⟩).finish append hsec
    · rintro hmallocs rfl
      rw [hall hmallocs hzero]
      rfl

/-- A value that is found is one of the values. -/
theorem find_of_valuesFit {file : PIniFile} {section_ key val : CString} (h : ∀ sec ∈ file.sections, ValuesFit sec)
    (hfind : ppIniFileFindParameter file section_ key = some val) : val.length ≤ iniFileMaxLine ∧ 0 ∉ val := by
  rw [ppIniFileFindParameter] at hfind
  split at hfind
  · split at hfind
    · cases hfind
    · rename_i sec hsec
      obtain ⟨param, hparam, rfl⟩ := Option.map_eq_some_iff.1 hfind
      exact h sec (List.mem_of_find?_eq_some hsec) param (List.mem_of_find?_eq_some hparam)
  · cases hfind

/-- **Every access of `p_ini_file_parse` is inside of its buffer**, whatever the arrays hold at the start and
    whichever allocations fail; if none does, the parse is that of `pIniFileParse`.  And
    `p_ini_file_parameter_list` writes inside of its buffer for every value of the file. -/
theorem pIniFileParseBuf_eq (mallocs : ℕ → LineMallocs) (append : Bool) (b : IniBuffers)
    (fopen : CString → Except (pint × pint) (List UInt8)) :
    (∀ file, ∃ file' ret, pIniFileParseBuf mallocs append b fopen file = some (file', ret) ∧
      ((∀ n, mallocs n = .all) → append = true → pIniFileParse fopen file = some (file', ret))) ∧
    ∀ path, ∃ file' ret, pIniFileParseBuf mallocs append b fopen (pIniFileNew path) = some (file', ret) ∧
      ∀ (buf : LineBuffer) section_ key, ∃ words,
        pIniFileParameterListBuf buf.elems file' section_ key = some words := by
  refine ⟨fun file => ?_, fun path => ?_⟩
  · obtain ⟨file', ret, hparse, -, hall⟩ := pIniFileParseBuf_parse mallocs append b fopen file
    exact ⟨file', ret, hparse, hall⟩
  · obtain ⟨file', ret, hparse, hfits, -⟩ := pIniFileParseBuf_parse mallocs append b fopen (pIniFileNew path)
    refine ⟨file', ret, hparse, fun buf section_ key => ?_⟩
    have hne : buf.elems ≠ [] := List.ne_nil_of_length_pos (by rw [buf.length_elems]; decide)
    refine ⟨_, pIniFileParameterListBuf_eq (fun val hfind => ?_) hne⟩
    have hsections : ∀ sec ∈ (pIniFileNew path).sections, ValuesFit sec := fun sec hsec =>
      absurd hsec List.not_mem_nil
    obtain ⟨hval, hnul⟩ := find_of_valuesFit (hfits hsections) hfind
    exact ⟨by rw [buf.length_elems]; omega, hnul⟩

end Plibsys
