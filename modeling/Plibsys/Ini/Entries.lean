/-
  What `p_ini_file_parse` reads: entries, which make sections.

  A parse stores the finished sections in front of the list, and the last one of the file behind
  it; sections without parameters are left out.
-/
import Plibsys.Ini.IniFile
import Plibsys.Lib.Sections

namespace Plibsys

open Scanning Sectioned

/-! ## Lines -/

/-- The trimmed line behind a byte-order mark. -/
def dstLine (line : List UInt8) : CString :=
  trim isspace (stringAt (srcLine line) (bomShift (srcLine line)))

/-- What a line says. -/
def lineEntry (line : List UInt8) : Option (Entry CString PIniParameter) :=
  match scanSection (dstLine line) with
  | some key => some (.header (trim isspace key))
  | none =>
    match scanParameter (dstLine line) with
    | some (key, value) => some (.item ⟨trim isspace key, unquoteEmpty (trim isspace value)⟩)
    | none => none

/-- The reads of the file. -/
def iniPieces (in_file : List UInt8) : List (List UInt8) := TextLines.pieces newline iniFileMaxLine in_file

def iniEntries (in_file : List UInt8) : List (Entry CString PIniParameter) :=
  (iniPieces in_file).filterMap lineEntry

variable {line in_file : List UInt8} {str key value : CString} {pos : ℕ}

/-- A line that starts with an ASCII character has no byte-order mark. -/
theorem bomShift_of_ascii {c : UInt8} (hc : c < 0x80) (hne : c ≠ 0) : bomShift (srcLine (c :: line)) = 0 := by
  have h0 : (srcLine (c :: line))[0]? = some c := rfl
  have hEF : c ≠ 0xEF := by rintro rfl; exact absurd hc (by decide)
  have hFE : c ≠ 0xFE := by rintro rfl; exact absurd hc (by decide)
  have hFF : c ≠ 0xFF := by rintro rfl; exact absurd hc (by decide)
  simp [bomShift, h0, hEF, hFE, hFF, hne]

theorem cutLine_eq (h : str.length ≤ iniFileMaxLine) : cutLine str = str := by
  rw [cutLine, if_neg (Nat.not_lt.2 h)]

theorem stringAt_srcLine : stringAt (srcLine line) pos = stringAt line pos := by
  rw [stringAt, srcLine, List.drop_append, List.drop_replicate]
  refine takeWhile_append_of_stop fun x hx => ?_
  rw [List.head?_replicate] at hx
  split at hx
  · cases hx
  · rw [← Option.some.inj hx]
    rfl

theorem length_stringAt_le : (stringAt line pos).length ≤ line.length :=
  (List.takeWhile_prefix _).length_le.trans (List.drop_suffix _ _).length_le

theorem length_dstLine_le : (dstLine line).length ≤ line.length := by
  rw [dstLine, stringAt_srcLine]
  exact (length_trim_le _ _).trans length_stringAt_le

theorem length_of_scanSection (h : scanSection str = some key) : key.length ≤ str.length := by
  rw [scanSection] at h
  split at h
  · split at h
    · rename_i k hscan
      cases h
      exact length_scan_le (hscan ▸ List.mem_singleton.2 rfl)
    · cases h
  · cases h

theorem length_of_bothFound {fmt : List (Directive UInt8)} (h : bothFound (sscanf str fmt) = some (key, value)) :
    key.length ≤ str.length ∧ value.length ≤ str.length := by
  rw [bothFound.eq_def] at h
  split at h
  · rename_i k v hscan
    cases h
    exact ⟨length_scan_le (hscan ▸ List.mem_cons_self ..),
      length_scan_le (hscan ▸ List.mem_cons_of_mem _ (List.mem_singleton.2 rfl))⟩
  · cases h

theorem length_of_scanParameter (h : scanParameter str = some (key, value)) :
    key.length ≤ str.length ∧ value.length ≤ str.length := by
  rw [scanParameter] at h
  rcases Option.or_eq_some_iff.1 h with h | ⟨-, h⟩
  · exact length_of_bothFound h
  · rcases Option.or_eq_some_iff.1 h with h | ⟨-, h⟩
    · exact length_of_bothFound h
    · exact length_of_bothFound h

/-! ## The loop -/

/-- What the loop does with an entry. -/
def IniParse.add (p : IniParse) : Entry CString PIniParameter → IniParse
  | .header name => p.newSection name
  | .item param => p.newParameter param

theorem length_of_fgets {rest : List UInt8} (h : fgets (iniFileMaxLine + 1) in_file = some (line, rest)) :
    line.length ≤ iniFileMaxLine := by
  rw [fgets] at h
  split at h
  · cases h
  · have hle := TextLines.length_readLine_le newline (iniFileMaxLine + 1 - 1) in_file
    rwa [Option.some.inj h] at hle

theorem fgets_cons (c : UInt8) (in_file : List UInt8) : ∃ line rest,
    fgets (iniFileMaxLine + 1) (c :: in_file) = some (line, rest) ∧
      iniPieces (c :: in_file) = line :: iniPieces rest ∧ rest.length ≤ in_file.length :=
  ⟨_, _, if_neg (List.cons_ne_nil _ _), TextLines.pieces_cons ..,
    TextLines.length_readLine_lt newline 1023 c in_file⟩

/-- A line that fits the buffer. -/
theorem iniParseLine_eq (p : IniParse) (hline : line.length ≤ iniFileMaxLine) :
    iniParseLine p line = some ((lineEntry line).elim p p.add) := by
  have hdst : (dstLine line).length ≤ iniFileMaxLine := length_dstLine_le.trans hline
  rw [iniParseLine]
  simp only [pStrchomp_eq, Option.bind_eq_bind, Option.bind_some]
  rw [← dstLine, cutLine_eq hdst, lineEntry]
  cases hsection : scanSection (dstLine line) with
  | some key =>
    have hkey := (length_trim_le isspace key).trans ((length_of_scanSection hsection).trans hdst)
    simp only [cutLine_eq hkey]
    rfl
  | none =>
    cases hparam : scanParameter (dstLine line) with
    | none => rfl
    | some kv =>
      obtain ⟨key, value⟩ := kv
      obtain ⟨hk, hv⟩ := length_of_scanParameter hparam
      simp only [cutLine_eq ((length_trim_le isspace key).trans (hk.trans hdst)),
        cutLine_eq ((length_trim_le isspace value).trans (hv.trans hdst))]
      rfl

/-- The loop ends, and adds the entries of the file. -/
theorem iniParseLoop_eq {fuel : ℕ} (hfuel : in_file.length < fuel) (p : IniParse) :
    iniParseLoop fuel p in_file = some ((iniEntries in_file).foldl IniParse.add p) := by
  induction fuel generalizing in_file p with
  | zero => cases hfuel
  | succ fuel ih =>
    rw [iniParseLoop]
    rcases in_file with _ | ⟨c, in_file⟩
    · rfl
    · obtain ⟨line, rest, hfgets, hpieces, hlen⟩ := fgets_cons c in_file
      rw [hfgets, iniEntries, hpieces, List.filterMap_cons]
      dsimp only
      rw [iniParseLine_eq p (length_of_fgets hfgets), Option.bind_eq_bind, Option.bind_some,
        ih (Nat.lt_of_le_of_lt hlen (Nat.lt_of_succ_lt_succ hfuel))]
      cases lineEntry line <;> rfl

/-! ## Sections -/

/-- A section as it is stored: the last key comes first. -/
def iniSection (s : Section CString PIniParameter) : PIniSection := ⟨s.name, s.items.reverse⟩

/-- The order in which the sections of a file are stored: the last one of the file comes last,
    the others are in front of it in reverse. -/
def storedOrder {N P : Type} (ss : List (Section N P)) : List (Section N P) :=
  (ss.dropLast.filter Section.used).reverse ++ ss.getLast?.toList.filter Section.used

/-- The sections of a parsed file. -/
def iniSections (in_file : List UInt8) : List PIniSection :=
  (storedOrder (sections (iniEntries in_file))).map iniSection

/-- A finished section, if it is stored. -/
def storedSection (s : Section CString PIniParameter) : List PIniSection :=
  ([s].filter Section.used).map iniSection

variable {secs : List PIniSection} {name : CString} {keys : List PIniParameter}
  {es : List (Entry CString PIniParameter)}

theorem storedSection_of_ne (hkeys : keys ≠ []) : storedSection ⟨name, keys.reverse⟩ = [⟨name, keys⟩] := by
  have hused : (⟨name, keys.reverse⟩ : Section CString PIniParameter).used :=
    Section.used_iff.2 (List.reverse_ne_nil_iff.2 hkeys)
  rw [storedSection, List.filter_cons_of_pos hused]
  show [PIniSection.mk name keys.reverse.reverse] = _
  rw [List.reverse_reverse]

theorem close_some : IniParse.close ⟨secs, some ⟨name, keys⟩⟩ = storedSection ⟨name, keys.reverse⟩ ++ secs := by
  by_cases hkeys : keys = []
  · subst hkeys
    rfl
  · rw [storedSection_of_ne hkeys]
    exact if_neg hkeys

theorem finish_some : IniParse.finish ⟨secs, some ⟨name, keys⟩⟩ = secs ++ storedSection ⟨name, keys.reverse⟩ := by
  by_cases hkeys : keys = []
  · subst hkeys
    exact (List.append_nil _).symm
  · rw [storedSection_of_ne hkeys]
    exact if_neg hkeys

/-- The sections that are stored around those of an earlier part of the file. -/
def storedAround (secs : List PIniSection) (ss : List (Section CString PIniParameter)) : List PIniSection :=
  (ss.dropLast.filter Section.used).reverse.map iniSection ++ secs ++
    (ss.getLast?.toList.filter Section.used).map iniSection

theorem storedAround_cons (s s' : Section CString PIniParameter) (ss : List (Section CString PIniParameter)) :
    storedAround secs (s :: s' :: ss) = storedAround (storedSection s ++ secs) (s' :: ss) := by
  rw [storedAround, storedAround, List.dropLast_cons_cons, List.getLast?_cons_cons, ← List.singleton_append,
    List.filter_append, List.reverse_append, List.map_append, storedSection]
  cases hs : s.used <;> simp [hs]

/-- The entries of a section that is being read, and of the rest of the file. -/
theorem finish_foldl_some (es : List (Entry CString PIniParameter)) (secs : List PIniSection) (name : CString)
    (keys : List PIniParameter) : (es.foldl IniParse.add ⟨secs, some ⟨name, keys⟩⟩).finish =
      storedAround secs (⟨name, keys.reverse ++ lead es⟩ :: sections es) := by
  induction es generalizing secs name keys with
  | nil =>
    rw [List.foldl_nil, finish_some, lead_nil, List.append_nil]
    rfl
  | cons e es ih =>
    cases e with
    | item p =>
      rw [lead_item, sections_item, List.foldl_cons]
      refine (ih secs name (p :: keys)).trans ?_
      rw [List.reverse_cons, List.append_assoc, List.singleton_append]
    | header m =>
      rw [lead_header, sections_header, List.append_nil, List.foldl_cons, storedAround_cons, ← close_some]
      exact ih _ m []

theorem finish_foldl_none (es : List (Entry CString PIniParameter)) (secs : List PIniSection) :
    (es.foldl IniParse.add ⟨secs, none⟩).finish = storedAround secs (sections es) := by
  induction es with
  | nil => exact (List.append_nil _).symm
  | cons e es ih =>
    cases e with
    | item p => exact ih
    | header m => exact finish_foldl_some es secs m []

/-- **What a parse stores.** -/
theorem pIniFileParse_eq {fopen : CString → Except (pint × pint) (List UInt8)} {path : CString}
    (hopen : fopen path = .ok in_file) :
    pIniFileParse fopen (pIniFileNew path) = some (⟨path, iniSections in_file, true⟩, .ok ()) := by
  rw [pIniFileParse, pIniFileNew, if_neg Bool.false_ne_true]
  dsimp only
  rw [hopen]
  dsimp only
  rw [iniParseLoop_eq (Nat.lt_succ_self _), Option.bind_eq_bind, Option.bind_some, finish_foldl_none, storedAround,
    List.append_nil, ← List.map_append]
  rfl

theorem pIniFileParse_error {fopen : CString → Except (pint × pint) (List UInt8)} {path : CString}
    {e : pint × pint}
    (hopen : fopen path = .error e) :
    pIniFileParse fopen (pIniFileNew path) =
      some (pIniFileNew path, .error ⟨e.1, e.2, "Failed to open file for reading"⟩) := by
  rw [pIniFileParse, pIniFileNew, if_neg Bool.false_ne_true]
  dsimp only
  rw [hopen]

/-- The file after it has been parsed. -/
def parsedFile (path : CString) (in_file : List UInt8) : PIniFile := ⟨path, iniSections in_file, true⟩

end Plibsys
