/-
  Which assignment of a key is looked up when a section occurs several times.

  A lookup sees one of the sections of a name: the latest one with parameters that is not the
  last section of the file or, failing that, the last section of the file.
-/
import Plibsys.Ini.Views

namespace Plibsys

open Sectioned

/-- The entries of the lines of a file. -/
def lineEntries (in_file : List UInt8) : List (Entry CString PIniParameter) :=
  (TextLines.lines newline in_file).filterMap lineEntry

/-- Every line fits the line buffer. -/
def LinesFit (in_file : List UInt8) : Prop :=
  ∀ line ∈ TextLines.lines newline in_file, line.length ≤ iniFileMaxLine

instance {in_file : List UInt8} : Decidable (LinesFit in_file) := List.decidableBAll _ _

theorem iniEntries_eq {in_file : List UInt8} (h : LinesFit in_file) :
    iniEntries in_file = lineEntries in_file := by
  rw [iniEntries, iniPieces, iniFileMaxLine, TextLines.pieces_eq_lines h]
  rfl

section
variable (s k : CString)

/-- Follow the entries: whether the lines are under a `[s]` header, and the value of `k` so far. -/
def assignStep : Bool × Option CString → Entry CString PIniParameter → Bool × Option CString
  | (_, val), .header name => (name = s, val)
  | (false, val), .item _ => (false, val)
  | (true, val), .item param => (true, if param.name = k then some param.value else val)

/-- The value of the last line for `k` under a `[s]` header. -/
def lastAssignment (es : List (Entry CString PIniParameter)) : Option CString :=
  (es.foldl (assignStep s k) (false, none)).2

/-- The last value of a key among some parameters. -/
def lastValue (params : List PIniParameter) : Option CString := (params.reverse.find? (·.name = k)).map (·.value)

/-- The last section `s` with a line for `k`. -/
def lastSectionWith (ss : List (Section CString PIniParameter)) : Option (Section CString PIniParameter) :=
  ss.reverse.find? fun sec => sec.name = s ∧ (lastValue k sec.items).isSome

/-- The section `s` that a lookup sees. -/
def shownSection (ss : List (Section CString PIniParameter)) : Option (Section CString PIniParameter) :=
  (ss.dropLast.reverse ++ ss.getLast?.toList).find? fun sec => sec.name = s ∧ sec.used

/-- The last section `s` with a line for `k` is the one that a lookup sees, or that one gives `k` the
    same value. -/
def LookupSeesLast (ss : List (Section CString PIniParameter)) : Prop :=
  ∀ sec, lastSectionWith s k ss = some sec →
    ∃ sec', shownSection s ss = some sec' ∧ lastValue k sec'.items = lastValue k sec.items

end

variable {s k : CString} {ss : List (Section CString PIniParameter)}

/-! ## The last assignment -/

theorem lastValue_append (ps qs : List PIniParameter) :
    lastValue k (ps ++ qs) = (lastValue k qs).or (lastValue k ps) := by
  rw [lastValue, List.reverse_append, List.find?_append]
  simp only [lastValue]
  cases qs.reverse.find? (·.name = k) <;> rfl

/-- The value of `k` in the sections `s`. -/
def sectionsValue (s k : CString) (ss : List (Section CString PIniParameter)) : Option CString :=
  (lastSectionWith s k ss).bind fun sec => lastValue k sec.items

theorem lastSectionWith_some {sec : Section CString PIniParameter} (h : lastSectionWith s k ss = some sec) :
    sec.name = s ∧ (lastValue k sec.items).isSome := by
  rw [lastSectionWith] at h
  simpa using List.find?_some h

theorem lastSectionWith_none (h : lastSectionWith s k ss = none) :
    ∀ sec ∈ ss, sec.name = s → lastValue k sec.items = none := by
  intro sec hsec hname
  rw [lastSectionWith, List.find?_eq_none] at h
  by_contra hval
  exact h sec (List.mem_reverse.2 hsec) (decide_eq_true ⟨hname, Option.isSome_iff_ne_none.2 hval⟩)

theorem sectionsValue_cons (sec : Section CString PIniParameter) (ss : List (Section CString PIniParameter)) :
    sectionsValue s k (sec :: ss) =
      (sectionsValue s k ss).or (if sec.name = s then lastValue k sec.items else none) := by
  rw [sectionsValue, lastSectionWith, List.reverse_cons, List.find?_append, ← lastSectionWith, sectionsValue]
  cases hlast : lastSectionWith s k ss with
  | some sec' =>
    obtain ⟨val, hval⟩ := Option.isSome_iff_exists.1 (lastSectionWith_some hlast).2
    rw [Option.some_or, Option.bind_some, hval, Option.some_or]
  | none =>
    rw [Option.none_or, Option.bind_none, Option.none_or, List.find?_singleton]
    by_cases hs : sec.name = s
    · rw [if_pos hs]
      cases hval : lastValue k sec.items with
      | none => rw [if_neg (by simp)]; rfl
      | some val => rw [if_pos (by simp [hs]), Option.bind_some, hval]
    · rw [if_neg hs, if_neg (by simp [hs])]
      rfl

theorem lastValue_cons (p : PIniParameter) (ps : List PIniParameter) :
    lastValue k (p :: ps) = (lastValue k ps).or (if p.name = k then some p.value else none) := by
  rw [← List.singleton_append, lastValue_append]
  congr 1
  rw [lastValue, List.reverse_singleton, List.find?_singleton]
  by_cases hp : p.name = k
  · rw [if_pos (decide_eq_true hp), if_pos hp]
    rfl
  · rw [if_neg (by simpa using hp), if_neg hp]
    rfl

/-- The value so far is overridden by the rest of the section that is open, and by later sections. -/
theorem foldl_assignStep (es : List (Entry CString PIniParameter)) (b : Bool) (val : Option CString) :
    (es.foldl (assignStep s k) (b, val)).2 =
      (sectionsValue s k (sections es)).or ((if b then lastValue k (lead es) else none).or val) := by
  induction es generalizing b val with
  | nil => cases b <;> rfl
  | cons e es ih =>
    rw [List.foldl_cons]
    cases e with
    | header name =>
      rw [sections_header, lead_header, sectionsValue_cons, Option.or_assoc]
      refine (ih (decide (name = s)) val).trans ?_
      by_cases hname : name = s
      · rw [decide_eq_true hname, if_pos rfl, if_pos hname]
        cases b <;> rfl
      · rw [decide_eq_false hname, if_neg Bool.false_ne_true, if_neg hname]
        cases b <;> rfl
    | item p =>
      rw [sections_item, lead_item]
      cases b with
      | false => exact ih false val
      | true =>
        refine (ih true _).trans ?_
        rw [if_pos rfl, if_pos rfl, lastValue_cons, Option.or_assoc]
        by_cases hp : p.name = k
        · rw [if_pos hp, if_pos hp]
          rfl
        · rw [if_neg hp, if_neg hp]
          rfl

theorem lastAssignment_eq (es : List (Entry CString PIniParameter)) :
    lastAssignment s k es = sectionsValue s k (sections es) := by
  rw [lastAssignment, foldl_assignStep]
  exact (congrArg (Option.or _) (Option.or_none ..)).trans (Option.or_none ..)

/-! ## What a lookup sees -/

/-- A lookup finds the first section of the list with the name. -/
theorem shownSection_eq : shownSection s ss = (storedOrder ss).find? (·.name = s) := by
  have hfilter : storedOrder ss = (ss.dropLast.reverse ++ ss.getLast?.toList).filter Section.used := by
    rw [storedOrder, List.filter_append, List.filter_reverse]
  rw [hfilter, List.find?_filter, shownSection]
  congr 1
  funext sec
  simp [and_comm]

variable {in_file : List UInt8} {path : CString}

variable (path) in
/-- The value that a lookup returns. -/
theorem findParameter_parsedFile : ppIniFileFindParameter (parsedFile path in_file) s k =
    (shownSection s (sections (iniEntries in_file))).bind fun sec => lastValue k sec.items := by
  rw [ppIniFileFindParameter_eq rfl, shownSection_eq]
  show ((iniSections in_file).find? _).bind _ = _
  rw [iniSections, List.find?_map, Option.bind_map]
  rfl

theorem shownSection_some {sec : Section CString PIniParameter} (h : shownSection s ss = some sec) :
    sec ∈ ss ∧ sec.name = s ∧ sec.used := by
  rw [shownSection_eq] at h
  obtain ⟨hmem, hused⟩ := mem_storedOrder.1 (List.mem_of_find?_eq_some h)
  exact ⟨hmem, by simpa using List.find?_some h, hused⟩

/-- When the lookup returns the value of the last line. -/
theorem lookupSeesLast_iff :
    ((shownSection s ss).bind fun sec => lastValue k sec.items) = sectionsValue s k ss ↔
    LookupSeesLast s k ss := by
  rw [sectionsValue, LookupSeesLast]
  constructor
  · intro h sec hsec
    rw [hsec, Option.bind_some] at h
    cases hshown : shownSection s ss with
    | some sec' => exact ⟨sec', rfl, by rwa [hshown] at h⟩
    | none =>
      rw [hshown, Option.bind_none] at h
      have hsome := (lastSectionWith_some hsec).2
      rw [← h] at hsome
      cases hsome
  · intro h
    cases hlast : lastSectionWith s k ss with
    | some sec =>
      obtain ⟨sec', hshown, hval⟩ := h sec hlast
      rw [hshown]
      exact hval
    | none =>
      rw [Option.bind_none, Option.bind_eq_none_iff]
      intro sec hsec
      obtain ⟨hmem, hname, -⟩ := shownSection_some hsec
      exact lastSectionWith_none hlast sec hmem hname

instance : Decidable (LookupSeesLast s k ss) := decidable_of_iff _ lookupSeesLast_iff

/-- A section that occurs once with parameters is the one that a lookup sees. -/
theorem lookupSeesLast_of_once
    (honce : ∀ sec ∈ ss, ∀ sec' ∈ ss, sec.name = s → sec'.name = s → sec.used → sec'.used → sec = sec') :
    LookupSeesLast s k ss := by
  intro last hlast
  have hmem : last ∈ ss := List.mem_reverse.1 (List.mem_of_find?_eq_some hlast)
  obtain ⟨hname, hval⟩ := lastSectionWith_some hlast
  have hused : last.used := by
    rw [Section.used_iff]
    intro hnil
    rw [hnil] at hval
    cases hval
  have hstored : last ∈ storedOrder ss := mem_storedOrder.2 ⟨hmem, hused⟩
  cases hshown : shownSection s ss with
  | none =>
    rw [shownSection_eq, List.find?_eq_none] at hshown
    exact absurd (decide_eq_true hname) (hshown last hstored)
  | some sec' =>
    obtain ⟨hmem', hname', hused'⟩ := shownSection_some hshown
    exact ⟨sec', rfl, by rw [honce sec' hmem' last hmem hname' hname hused' hused]⟩

/-! ## The file -/

theorem pIniFileParameterString_eq {file : PIniFile} (d : Option CString) :
    pIniFileParameterString file s k d = (ppIniFileFindParameter file s k).or d := by
  rw [pIniFileParameterString]
  cases ppIniFileFindParameter file s k <;> rfl

/-- **The value that is returned for a key of a parsed file is that of the last line for the key
    in its section exactly when the lookup sees that line's section**, or the same value. -/
theorem pIniFileParameterString_last_iff (path : CString) (hfit : LinesFit in_file) (s k : CString) :
    ∃ file, pIniFileParse (fun _ => .ok in_file) (pIniFileNew path) = some (file, .ok ()) ∧
      ((∀ d, pIniFileParameterString file s k d = (lastAssignment s k (lineEntries in_file)).or d) ↔
        LookupSeesLast s k (sections (lineEntries in_file))) := by
  refine ⟨parsedFile path in_file, pIniFileParse_eq rfl, ?_⟩
  rw [← lookupSeesLast_iff, lastAssignment_eq, ← iniEntries_eq hfit, ← findParameter_parsedFile path]
  constructor
  · intro h
    have hnone := h none
    rwa [pIniFileParameterString_eq, Option.or_none, Option.or_none] at hnone
  · intro h d
    rw [pIniFileParameterString_eq, h]

theorem pIniFileParameterString_last_once :
    ∃ file, pIniFileParse (fun _ => .ok (bytes "[a]\nk=1\nk=2\n[b]\nk=3\n")) (pIniFileNew (bytes "/")) =
        some (file, .ok ()) ∧
      ((∀ d, pIniFileParameterString file (bytes "a") (bytes "k") d =
          (lastAssignment (bytes "a") (bytes "k") (lineEntries (bytes "[a]\nk=1\nk=2\n[b]\nk=3\n"))).or d) ↔
        LookupSeesLast (bytes "a") (bytes "k") (sections (lineEntries (bytes "[a]\nk=1\nk=2\n[b]\nk=3\n")))) :=
  pIniFileParameterString_last_iff (bytes "/") (by decide) (bytes "a") (bytes "k")

/-- The section that is repeated at the end of the file is hidden by the one before it. -/
theorem pIniFileParameterString_hidden :
    LinesFit (bytes "[a]\nk=1\n[b]\nj=1\n[a]\nk=2\n") ∧
      lastAssignment (bytes "a") (bytes "k") (lineEntries (bytes "[a]\nk=1\n[b]\nj=1\n[a]\nk=2\n")) =
        some (bytes "2") ∧
      ∃ file, pIniFileParse (fun _ => .ok (bytes "[a]\nk=1\n[b]\nj=1\n[a]\nk=2\n")) (pIniFileNew (bytes "/")) =
          some (file, .ok ()) ∧
        pIniFileParameterString file (bytes "a") (bytes "k") none = some (bytes "1") :=
  ⟨by decide, by decide, parsedFile _ _, pIniFileParse_eq rfl, by decide⟩

end Plibsys
