/-
  The lines of a file that is written in the usual form: `[name]` and `key = "value"`.
-/
import Plibsys.Ini.Entries

namespace Plibsys

open Scanning Sectioned

/-- `[name]`, with its newline. -/
def headerLine (name : CString) : List UInt8 := ascii '[' :: (name ++ [ascii ']', 10])

/-- `key = "value"`, with its newline. -/
def parameterLine (param : PIniParameter) : List UInt8 :=
  param.name ++ (32 :: ascii '=' :: 32 :: ascii '"' :: (param.value ++ [ascii '"', 10]))

/-- Without a newline or a NUL. -/
def Plain (str : CString) : Prop := ∀ c ∈ str, c ≠ 10 ∧ c ≠ 0

/-- The string starts with a byte-order mark. -/
def StartsWithBom (str : CString) : Prop :=
  [0xEF, 0xBB, 0xBF] <+: str ∨ [0xFE, 0xFF] <+: str ∨ [0xFF, 0xFE] <+: str

instance (str : CString) : Decidable (Plain str) := List.decidableBAll _ str

instance (str : CString) : Decidable (StartsWithBom str) := inferInstanceAs (Decidable (_ ∨ _))

/-- A name that can be written between brackets. -/
structure SectionName (name : CString) : Prop where
  ne_nil : name ≠ []
  trimmed : Trimmed isspace name
  plain : Plain name
  chars : ∀ c ∈ name, c ≠ ascii ']'
  fits : (headerLine name).length ≤ iniFileMaxLine

/-- A key and a value that can be written as a parameter. -/
structure WritableParameter (param : PIniParameter) : Prop where
  key_ne_nil : param.name ≠ []
  key_trimmed : Trimmed isspace param.name
  key_plain : Plain param.name
  key_chars : ∀ c ∈ param.name, c ≠ ascii '=' ∧ c ≠ ascii ';' ∧ c ≠ ascii '#'
  key_head : param.name.head? ≠ some (ascii '[')
  key_bom : ¬ StartsWithBom param.name
  value_trimmed : Trimmed isspace param.value
  value_plain : Plain param.value
  value_chars : ∀ c ∈ param.value, c ≠ ascii '"'
  value_ne : param.value ≠ [ascii '\'', ascii '\'']
  fits : (parameterLine param).length ≤ iniFileMaxLine

variable {name line text : CString} {param : PIniParameter} {c : UInt8}

/-! ## Lines -/

/-- A line is trimmed on its own, without the newline. -/
theorem dstLine_eq (hbom : bomShift (srcLine (text ++ [10])) = 0) (hplain : Plain text)
    (htrimmed : Trimmed isspace text) :
    dstLine (text ++ [10]) = text := by
  have hstring : stringAt (text ++ [10]) 0 = text ++ [10] := by
    rw [stringAt, List.drop_zero]
    refine List.takeWhile_eq_self_iff.2 fun c hc => ?_
    rcases List.mem_append.1 hc with hc | hc
    · exact decide_eq_true (hplain c hc).2
    · rw [List.mem_singleton.1 hc]
      rfl
  rw [dstLine, hbom, stringAt_srcLine, hstring]
  exact trim_append (a := []) (by rintro _ ⟨⟩) (fun c hc => by rw [List.mem_singleton.1 hc]; rfl) htrimmed

/-! ## Headers -/

theorem headerLine_eq (name : CString) : headerLine name = (ascii '[' :: (name ++ [ascii ']'])) ++ [10] := by
  rw [headerLine, List.cons_append, List.append_assoc]
  rfl

theorem plain_headerText (h : SectionName name) : Plain (ascii '[' :: (name ++ [ascii ']'])) := by
  rintro c (_ | ⟨_, hc⟩)
  · exact ⟨by decide, by decide⟩
  · rcases List.mem_append.1 hc with hc | hc
    · exact h.plain c hc
    · rw [List.mem_singleton.1 hc]
      exact ⟨by decide, by decide⟩

theorem lineEntry_headerLine (h : SectionName name) : lineEntry (headerLine name) = some (.header name) := by
  have hlast : (ascii '[' :: (name ++ [ascii ']'])).getLast? = some (ascii ']') := by
    rw [← List.cons_append, List.getLast?_concat]
  have htrimmed : Trimmed isspace (ascii '[' :: (name ++ [ascii ']'])) := by
    refine ⟨fun c hc => ?_, fun c hc => ?_⟩
    · rw [← Option.some.inj hc]
      rfl
    · rw [hlast] at hc
      rw [← Option.some.inj hc]
      rfl
  have hdst : dstLine (headerLine name) = ascii '[' :: (name ++ [ascii ']']) := by
    rw [headerLine_eq]
    exact dstLine_eq (bomShift_of_ascii (by decide) (by decide)) (plain_headerText h) htrimmed
  have hscan : sscanf (ascii '[' :: (name ++ [ascii ']'])) sectionFormat = [name] := by
    rw [sscanf, sectionFormat, scan_char, scan_run (fun c hc => decide_eq_true (h.chars c hc)) h.ne_nil]
    · rfl
    · rintro c hc
      rw [← Option.some.inj hc]
      rfl
  have hsection : scanSection (ascii '[' :: (name ++ [ascii ']'])) = some name := by
    rw [scanSection, if_pos ⟨rfl, hlast⟩, hscan]
  rw [lineEntry, hdst, hsection]
  exact congrArg (fun n => some (Entry.header n)) (trim_of_trimmed h.trimmed)

/-! ## Parameters -/

/-- A key, and what stands behind the equals sign. -/
theorem scan_key {fmt : List (Directive UInt8)} {key rest : CString} (hkey : ∀ c ∈ key, c ≠ ascii '=') :
    scan isspace (.run (· ≠ ascii '=') :: .space :: .char (ascii '=') :: .space :: fmt)
      (key ++ 32 :: ascii '=' :: 32 :: rest) = (key ++ [32]) :: scan isspace fmt (rest.dropWhile isspace) := by
  have hall : ∀ c ∈ key ++ [32], decide (c ≠ ascii '=') = true := by
    intro c hc
    rcases List.mem_append.1 hc with hc | hc
    · exact decide_eq_true (hkey c hc)
    · rw [List.mem_singleton.1 hc]
      rfl
  have hstop : ∀ c ∈ (ascii '=' :: 32 :: rest).head?, decide (c ≠ ascii '=') = false := by
    intro c hc
    rw [← Option.some.inj hc]
    rfl
  have hblank : (ascii '=' :: 32 :: rest).dropWhile isspace = ascii '=' :: 32 :: rest :=
    List.dropWhile_cons_of_neg (by decide)
  have hblank' : ((32 : UInt8) :: rest).dropWhile isspace = rest.dropWhile isspace :=
    List.dropWhile_cons_of_pos (by decide)
  rw [List.append_cons, scan_run hall (List.append_ne_nil_of_right_ne_nil _ (List.cons_ne_nil _ _)) hstop,
    scan, hblank, scan_char, scan, hblank']

/-- The line of a parameter, without the newline. -/
def parameterText (param : PIniParameter) : CString :=
  param.name ++ 32 :: ascii '=' :: 32 :: ascii '"' :: (param.value ++ [ascii '"'])

theorem dropWhile_quote (rest : CString) : (ascii '"' :: rest).dropWhile isspace = ascii '"' :: rest :=
  List.dropWhile_cons_of_neg (by decide)

/-- A value that is not empty is found between the quotes. -/
theorem scanParameter_of_ne (h : WritableParameter param) (hvalue : param.value ≠ []) :
    scanParameter (parameterText param) = some (param.name ++ [32], param.value) := by
  have hstop : ∀ c ∈ [ascii '"'].head?, decide (c ≠ ascii '"') = false := by
    intro c hc
    rw [← Option.some.inj hc]
    rfl
  have hscan : sscanf (parameterText param) (quotedFormat (ascii '"')) = [param.name ++ [32], param.value] := by
    rw [sscanf, quotedFormat, parameterText, scan_key fun c hc => (h.key_chars c hc).1, dropWhile_quote, scan_char,
      scan_run (fun c hc => decide_eq_true (h.value_chars c hc)) hvalue hstop]
    rfl
  rw [scanParameter, hscan]
  rfl

/-- The empty value is only found without the quotes. -/
theorem scanParameter_of_nil (h : WritableParameter param) (hvalue : param.value = []) :
    scanParameter (parameterText param) = some (param.name ++ [32], [ascii '"', ascii '"']) := by
  have hkey : ∀ c ∈ param.name, c ≠ ascii '=' := fun c hc => (h.key_chars c hc).1
  have hdouble : sscanf (parameterText param) (quotedFormat (ascii '"')) = [param.name ++ [32]] := by
    rw [sscanf, quotedFormat, parameterText, scan_key hkey, dropWhile_quote, scan_char, hvalue]
    rfl
  have hsingle : sscanf (parameterText param) (quotedFormat (ascii '\'')) = [param.name ++ [32]] := by
    rw [sscanf, quotedFormat, parameterText, scan_key hkey, dropWhile_quote, scan_char_of_ne (by decide)]
  have hplain : sscanf (parameterText param) plainFormat = [param.name ++ [32], [ascii '"', ascii '"']] := by
    rw [sscanf, plainFormat, parameterText, scan_key hkey, dropWhile_quote, hvalue]
    rfl
  rw [scanParameter, hdouble, hsingle, hplain]
  rfl

theorem bomShift_eq_zero {src : List UInt8} (h0 : src[0]? ≠ some 0)
    (h1 : ¬ (src[0]? = some 0xEF ∧ src[1]? = some 0xBB ∧ src[2]? = some 0xBF))
    (h2 : ¬ (src[0]? = some 0xFE ∧ src[1]? = some 0xFF)) (h3 : ¬ (src[0]? = some 0xFF ∧ src[1]? = some 0xFE)) :
    bomShift src = 0 := by
  rw [bomShift, if_neg h1, if_neg (not_or_intro h2 h3), if_neg fun h => h0 h.1, if_neg fun h => h3 ⟨h.1, h.2.1⟩]

/-- A key without a byte-order mark makes a line without one. -/
theorem bomShift_parameterLine (h : WritableParameter param) : bomShift (srcLine (parameterLine param)) = 0 := by
  obtain ⟨key, value⟩ := param
  obtain ⟨hne, -, hplain, -, -, hbom, -, -, -, -, -⟩ := h
  rcases key with _ | ⟨a, key⟩
  · exact absurd rfl hne
  · have ha : a ≠ 0 := (hplain a (List.mem_cons_self ..)).2
    refine bomShift_eq_zero (fun h => ha (Option.some.inj h)) ?_ ?_ ?_
    · rintro ⟨h0, h1, h2⟩
      rcases key with _ | ⟨b, _ | ⟨c, key⟩⟩
      · cases h1
      · cases h2
      · cases h0
        cases h1
        cases h2
        exact hbom (.inl ⟨key, rfl⟩)
    · rintro ⟨h0, h1⟩
      rcases key with _ | ⟨b, key⟩
      · cases h1
      · cases h0
        cases h1
        exact hbom (.inr (.inl ⟨key, rfl⟩))
    · rintro ⟨h0, h1⟩
      rcases key with _ | ⟨b, key⟩
      · cases h1
      · cases h0
        cases h1
        exact hbom (.inr (.inr ⟨key, rfl⟩))

theorem parameterLine_eq (param : PIniParameter) : parameterLine param = parameterText param ++ [10] := by
  simp [parameterLine, parameterText]

theorem plain_parameterText (h : WritableParameter param) : Plain (parameterText param) := by
  intro c hc
  simp only [parameterText, List.mem_append, List.mem_cons, List.not_mem_nil, or_false] at hc
  rcases hc with hc | rfl | rfl | rfl | rfl | hc | rfl
  · exact h.key_plain c hc
  · exact ⟨by decide, by decide⟩
  · exact ⟨by decide, by decide⟩
  · exact ⟨by decide, by decide⟩
  · exact ⟨by decide, by decide⟩
  · exact h.value_plain c hc
  · exact ⟨by decide, by decide⟩

theorem lineEntry_parameterLine (h : WritableParameter param) :
    lineEntry (parameterLine param) = some (.item param) := by
  have htrimmed : Trimmed isspace (parameterText param) := by
    refine ⟨fun c hc => h.key_trimmed.1 c ?_, fun c hc => ?_⟩
    · rwa [parameterText, List.head?_append_of_ne_nil _ h.key_ne_nil] at hc
    · have hconcat : parameterText param =
          (param.name ++ 32 :: ascii '=' :: 32 :: ascii '"' :: param.value) ++ [ascii '"'] := by
        simp [parameterText]
      have hlast : (parameterText param).getLast? = some (ascii '"') := by rw [hconcat, List.getLast?_concat]
      rw [hlast] at hc
      rw [← Option.some.inj hc]
      rfl
  have hdst : dstLine (parameterLine param) = parameterText param := by
    rw [parameterLine_eq]
    exact dstLine_eq (parameterLine_eq param ▸ bomShift_parameterLine h) (plain_parameterText h) htrimmed
  have hsection : scanSection (parameterText param) = none := by
    rw [scanSection, if_neg]
    rintro ⟨hhead, -⟩
    rw [parameterText, List.head?_append_of_ne_nil _ h.key_ne_nil] at hhead
    exact h.key_head hhead
  have hkey : trim isspace (param.name ++ [32]) = param.name :=
    trim_append (a := []) (by rintro _ ⟨⟩) (fun c hc => by rw [List.mem_singleton.1 hc]; rfl) h.key_trimmed
  rw [lineEntry, hdst, hsection]
  dsimp only
  by_cases hvalue : param.value = []
  · rw [scanParameter_of_nil h hvalue]
    dsimp only
    rw [hkey]
    obtain ⟨key, value⟩ := param
    obtain rfl : value = [] := hvalue
    rfl
  · rw [scanParameter_of_ne h hvalue]
    dsimp only
    rw [hkey, trim_of_trimmed h.value_trimmed, unquoteEmpty, if_neg]
    rintro (hquotes | hquotes)
    · exact h.value_chars _ (hquotes ▸ List.mem_cons_self ..) rfl
    · exact h.value_ne hquotes

end Plibsys
