/-
  Lines that start with `;` or `#`.

  A parse has no rule for them: such a line is a parameter when it has an equals sign with a value
  behind it.
-/
import Plibsys.Ini.Views

namespace Plibsys

open Scanning Sectioned

/-- The first character that is not a blank is `;` or `#`. -/
def IsComment (line : List UInt8) : Prop :=
  ∃ c ∈ (line.dropWhile isspace).head?, c = ascii ';' ∨ c = ascii '#'

/-- What may start a value without quotes. -/
def startsValue (c : UInt8) : Bool := c ≠ ascii ';' && c ≠ ascii '#'

/-- A value stands behind the first equals sign. -/
def assigns (str : CString) : Bool :=
  ((str.dropWhile (· ≠ ascii '=')).tail.dropWhile isspace).head?.any startsValue

/-- The sections that are stored in front of one that has `init` before it in the file, and `rest` behind it. -/
def storedInFront {N P : Type} (init rest : List (Section N P)) : List (Section N P) :=
  ((if rest = [] then init else rest.dropLast).filter Section.used).reverse

/-- No section is open between the entries, or it has parameters but is not seen. -/
def OpenSectionHidden (es es' : List (Entry CString PIniParameter)) : Prop :=
  ∀ sec ∈ (sections es).getLast?, sec.items ++ lead es' ≠ [] ∧
    ∃ sec' ∈ storedInFront (sections es).dropLast (sections es'), sec'.name = sec.name

/-- Two files look the same. -/
structure SameViews (file file' : PIniFile) : Prop where
  sections : pIniFileSections file = pIniFileSections file'
  keys : ∀ s, pIniFileKeys file s = pIniFileKeys file' s
  is_key_exists : ∀ s k, pIniFileIsKeyExists file s k = pIniFileIsKeyExists file' s k
  parameter_string : ∀ s k d, pIniFileParameterString file s k d = pIniFileParameterString file' s k d
  parameter_int : ∀ s k d, pIniFileParameterInt file s k d = pIniFileParameterInt file' s k d
  parameter_double : ∀ s k fuel d,
    pIniFileParameterDouble file s k fuel d = pIniFileParameterDouble file' s k fuel d
  parameter_boolean : ∀ s k d, pIniFileParameterBoolean file s k d = pIniFileParameterBoolean file' s k d
  parameter_list : ∀ s k, pIniFileParameterList file s k = pIniFileParameterList file' s k

variable {line str m a b : CString} {c : UInt8}

/-! ## The text of a comment -/

theorem head?_dropWhile_append {p : UInt8 → Bool} (hb : ∀ x ∈ b, p x) :
    ((a ++ b).dropWhile p).head? = (a.dropWhile p).head? := by
  induction a with
  | nil => rw [List.nil_append, List.dropWhile_eq_nil_iff.2 hb]; rfl
  | cons x a ih =>
    rw [List.cons_append, List.dropWhile_cons, List.dropWhile_cons]
    split
    · exact ih
    · rfl

theorem ne_equals_of_isspace (h : isspace c) : decide (c ≠ ascii '=') = true := by
  refine decide_eq_true ?_
  rintro rfl
  exact absurd h (by decide)

/-- Blanks around a line do not matter. -/
theorem assigns_trim (str : CString) : assigns (trim isspace str) = assigns str := by
  obtain ⟨a, b, hstr, ha, hb, -⟩ := exists_trim isspace str
  generalize trim isspace str = m at hstr
  rw [hstr, assigns, assigns, List.dropWhile_append_of_pos fun x hx => ne_equals_of_isspace (ha x hx)]
  congr 1
  cases hm : m.dropWhile (· ≠ ascii '=') with
  | nil =>
    rw [List.dropWhile_append, hm, List.isEmpty_nil, if_pos rfl,
      List.dropWhile_eq_nil_iff.2 fun x hx => ne_equals_of_isspace (hb x hx)]
  | cons x r =>
    rw [List.dropWhile_append, hm, List.isEmpty_cons, if_neg Bool.false_ne_true, List.cons_append,
      List.tail_cons, List.tail_cons,
      head?_dropWhile_append hb]

/-- A key ends at the first equals sign. -/
theorem scan_assignment {fmt : List (Directive UInt8)} (hkey : str.takeWhile (· ≠ ascii '=') ≠ []) :
    scan isspace (.run (· ≠ ascii '=') :: .space :: .char (ascii '=') :: .space :: fmt) str =
      str.takeWhile (· ≠ ascii '=') ::
        match str.dropWhile (· ≠ ascii '=') with
        | [] => []
        | _ :: rest => scan isspace fmt (rest.dropWhile isspace) := by
  rw [scan]
  cases hrun : str.takeWhile (· ≠ ascii '=') with
  | nil => exact absurd hrun hkey
  | cons x key =>
    dsimp only
    congr 1
    have hstop := head?_dropWhile (· ≠ ascii '=') str
    cases hrest : str.dropWhile (· ≠ ascii '=') with
    | nil => rfl
    | cons y rest =>
      rw [hrest] at hstop
      obtain rfl : y = ascii '=' := by simpa using hstop y rfl
      have hblank : (ascii '=' :: rest).dropWhile isspace = ascii '=' :: rest :=
        List.dropWhile_cons_of_neg (by decide)
      rw [scan, hblank, scan_char, scan]

/-- A line is a parameter when a value starts behind the equals sign. -/
theorem isSome_scanParameter (hkey : str.takeWhile (· ≠ ascii '=') ≠ []) :
    (scanParameter str).isSome = assigns str := by
  have hplain : plainFormat =
      [.run (· ≠ ascii '='), .space, .char (ascii '='), .space, .run startsValue] := rfl
  rw [scanParameter, sscanf, sscanf, sscanf, quotedFormat, quotedFormat, hplain, scan_assignment hkey,
    scan_assignment hkey, scan_assignment hkey, assigns]
  cases str.dropWhile (· ≠ ascii '=') with
  | nil => rfl
  | cons _ rest =>
    dsimp only [List.tail_cons]
    cases rest.dropWhile isspace with
    | nil => rfl
    | cons x value =>
      rw [List.head?_cons, Option.any_some]
      by_cases hx : startsValue x
      · have hrun : scan isspace [.run startsValue] (x :: value) = [x :: value.takeWhile startsValue] := by
          rw [scan, List.takeWhile_cons_of_pos hx]
          rfl
        rw [hrun, hx, Option.isSome_or, Option.isSome_or]
        exact Bool.or_eq_true_iff.2 (.inr (Bool.or_eq_true_iff.2 (.inr rfl)))
      · have hquote : x ≠ ascii '"' ∧ x ≠ ascii '\'' := by
          constructor <;> rintro rfl <;> exact hx (by decide)
        have hrun : scan isspace [.run startsValue] (x :: value) = [] :=
          scan_run_nil fun y hy => by
            rw [← Option.some.inj hy]
            exact Bool.eq_false_iff.2 hx
        rw [scan_char_of_ne hquote.1, scan_char_of_ne hquote.2, hrun, Bool.eq_false_iff.2 hx]
        rfl

variable {text : List UInt8}

theorem bomShift_comment (hc : c ∈ (line.dropWhile isspace).head?) (hmark : c = ascii ';' ∨ c = ascii '#') :
    bomShift (srcLine line) = 0 := by
  cases line with
  | nil => cases hc
  | cons x line =>
    by_cases hx : isspace x
    · simp only [isspace, Bool.or_eq_true, decide_eq_true_eq, Bool.and_eq_true] at hx
      rcases hx with rfl | ⟨hle, hge⟩
      · exact bomShift_of_ascii (by decide) (by decide)
      · refine bomShift_of_ascii (UInt8.lt_of_le_of_lt hge (by decide)) ?_
        rintro rfl
        exact absurd hle (by decide)
    · rw [List.dropWhile_cons_of_neg hx] at hc
      obtain rfl := Option.some.inj hc
      rcases hmark with rfl | rfl <;> exact bomShift_of_ascii (by decide) (by decide)

/-- The string of a comment goes past its mark. -/
theorem stringAt_comment (hc : c ∈ (line.dropWhile isspace).head?) (hmark : c = ascii ';' ∨ c = ascii '#') :
    ((stringAt line 0).dropWhile isspace).head? = some c := by
  obtain ⟨rest, hrest⟩ := List.head?_eq_some_iff.1 hc
  have hblanks : ∀ x ∈ line.takeWhile isspace, decide (x ≠ 0) = true := by
    intro x hx
    refine decide_eq_true ?_
    rintro rfl
    exact absurd (List.mem_takeWhile_imp hx) (by decide)
  have hc0 : (c :: rest).takeWhile (· ≠ 0) = c :: rest.takeWhile (· ≠ 0) :=
    List.takeWhile_cons_of_pos (by rcases hmark with rfl | rfl <;> decide)
  rw [stringAt, List.drop_zero, ← List.takeWhile_append_dropWhile (p := isspace) (l := line), hrest,
    List.takeWhile_append_of_pos hblanks, hc0,
    dropWhile_append_stop (fun _ => List.mem_takeWhile_imp)]
  · rfl
  · rintro x hx
    rw [← Option.some.inj hx]
    rcases hmark with rfl | rfl <;> decide

/-- What a comment says, if it says anything, is a parameter. -/
theorem lineEntry_comment (h : IsComment line) :
    (assigns (stringAt line 0) = false → lineEntry line = none) ∧
      (assigns (stringAt line 0) = true → ∃ param, lineEntry line = some (.item param)) := by
  obtain ⟨c, hc, hmark⟩ := h
  have hbom := bomShift_comment hc hmark
  have hdst : dstLine line = trim isspace (stringAt line 0) := by
    rw [dstLine, hbom, stringAt_srcLine]
  have hhead : (dstLine line).head? = some c := by
    rw [hdst, head?_trim, stringAt_comment hc hmark]
  have hsection : scanSection (dstLine line) = none := by
    rw [scanSection, if_neg]
    rintro ⟨hbracket, -⟩
    rw [hhead] at hbracket
    cases hbracket
    rcases hmark with h | h <;> exact absurd h (by decide)
  have hkey : (dstLine line).takeWhile (· ≠ ascii '=') ≠ [] := by
    obtain ⟨rest, hrest⟩ := List.head?_eq_some_iff.1 hhead
    rw [hrest, List.takeWhile_cons_of_pos]
    · exact List.cons_ne_nil _ _
    · rcases hmark with rfl | rfl <;> decide
  have hassigns := isSome_scanParameter hkey
  rw [hdst, assigns_trim, ← hdst] at hassigns
  rw [← hassigns, lineEntry, hsection]
  cases scanParameter (dstLine line) with
  | none => exact ⟨fun _ => rfl, by simp⟩
  | some kv => exact ⟨by simp, fun _ => ⟨_, rfl⟩⟩

/-! ## Views -/

variable {file file' : PIniFile} {secs secs' : List PIniSection} {path : CString}
  {es es' : List (Entry CString PIniParameter)} {param : PIniParameter}
  {init rest : List (Section CString PIniParameter)} {sec sec' : Section CString PIniParameter} {s : CString}

theorem SameViews.refl (file : PIniFile) : SameViews file file :=
  ⟨rfl, fun _ => rfl, fun _ _ => rfl, fun _ _ _ => rfl, fun _ _ _ => rfl, fun _ _ _ _ => rfl, fun _ _ _ => rfl,
    fun _ _ => rfl⟩

/-- The views depend on the names of the sections, and on the section that is found for a name. -/
theorem sameViews_of_find (hnames : secs.map (·.name) = secs'.map (·.name))
    (hfind : ∀ s, iniFindSection s secs = iniFindSection s secs') :
    SameViews ⟨path, secs, true⟩ ⟨path, secs', true⟩ := by
  have hparameter : ∀ s k, ppIniFileFindParameter ⟨path, secs, true⟩ s k =
      ppIniFileFindParameter ⟨path, secs', true⟩ s k := by
    intro s k
    rw [ppIniFileFindParameter_eq rfl, ppIniFileFindParameter_eq rfl, hfind]
  constructor
  · rw [pIniFileSections_eq rfl, pIniFileSections_eq rfl, hnames]
  · intro s
    rw [pIniFileKeys_eq rfl, pIniFileKeys_eq rfl, hfind]
  · intro s k
    rw [pIniFileIsKeyExists, pIniFileIsKeyExists, hfind]
  · intro s k d
    rw [pIniFileParameterString, pIniFileParameterString, hparameter]
  · intro s k d
    rw [pIniFileParameterInt, pIniFileParameterInt, hparameter]
  · intro s k fuel d
    rw [pIniFileParameterDouble, pIniFileParameterDouble, hparameter]
  · intro s k d
    rw [pIniFileParameterBoolean, pIniFileParameterBoolean, hparameter]
  · intro s k
    rw [pIniFileParameterList, pIniFileParameterList, hparameter]

/-- The sections that are stored behind one that has `init` before it in the file, and `rest` behind it. -/
def storedBehind (init rest : List (Section CString PIniParameter)) : List (Section CString PIniParameter) :=
  if rest = [] then [] else (init.filter Section.used).reverse ++ rest.getLast?.toList.filter Section.used

/-- Where a section is stored. -/
theorem storedOrder_append_cons : storedOrder (init ++ sec :: rest) =
    storedInFront init rest ++ ([sec].filter Section.used ++ storedBehind init rest) := by
  rw [storedOrder, storedInFront, storedBehind]
  rcases rest with _ | ⟨sec', rest⟩
  · rw [if_pos rfl, if_pos rfl, List.dropLast_concat, List.getLast?_concat, List.append_nil]
    rfl
  · rw [if_neg (List.cons_ne_nil _ _), if_neg (List.cons_ne_nil _ _),
      List.dropLast_append_of_ne_nil (List.cons_ne_nil _ _),
        List.getLast?_append_of_ne_nil _ (List.cons_ne_nil _ _),
      List.dropLast_cons_of_ne_nil (List.cons_ne_nil _ _), List.getLast?_cons_cons, List.filter_append,
      List.reverse_append, ← List.singleton_append, List.filter_append, List.reverse_append]
    have hsec : ([sec].filter Section.used).reverse = [sec].filter Section.used := by
      cases hused : sec.used <;> simp [hused]
    rw [hsec, List.append_assoc, List.append_assoc]

/-- A section is replaced by one of the same name: it is seen if none of that name is in front of it. -/
theorem sameViews_replace (hname : sec.name = sec'.name) (hused : sec.used) (hused' : sec'.used)
    (hlength : sec.items.length ≠ sec'.items.length) :
    SameViews ⟨path, (storedOrder (init ++ sec :: rest)).map iniSection, true⟩
        ⟨path, (storedOrder (init ++ sec' :: rest)).map iniSection, true⟩ ↔
      ∃ front ∈ storedInFront init rest, front.name = sec.name := by
  rw [storedOrder_append_cons, storedOrder_append_cons, List.filter_cons_of_pos hused,
    List.filter_cons_of_pos hused',
    List.filter_nil, List.singleton_append, List.singleton_append, List.map_append, List.map_append, List.map_cons,
    List.map_cons]
  have hfront : (∃ front ∈ storedInFront init rest, front.name = sec.name) ↔
      iniFindSection sec.name ((storedInFront init rest).map iniSection) ≠ none := by
    rw [iniFindSection, ne_eq, List.find?_eq_none]
    simp [iniSection]
  rw [hfront]
  generalize (storedInFront init rest).map iniSection = front
  generalize (storedBehind init rest).map iniSection = behind
  constructor
  · intro hsame hnone
    have hfind : ∀ x : Section CString PIniParameter, x.name = sec.name →
        iniFindSection sec.name (front ++ iniSection x :: behind) = some (iniSection x) := by
      intro x hx
      rw [iniFindSection] at hnone ⊢
      have hx' : decide ((iniSection x).name = sec.name) = true := decide_eq_true hx
      rw [List.find?_append, hnone, Option.none_or]
      exact List.find?_cons_of_pos hx'
    have hkeys := congrArg List.length (hsame.keys sec.name)
    rw [pIniFileKeys_eq rfl, pIniFileKeys_eq rfl, hfind sec rfl, hfind sec' hname.symm] at hkeys
    simp [iniSection] at hkeys
    exact hlength hkeys
  · intro hsome
    refine sameViews_of_find ?_ fun s => ?_
    · rw [List.map_append, List.map_append, List.map_cons, List.map_cons]
      exact congrArg (fun n => front.map (·.name) ++ n :: behind.map (·.name)) hname
    · rw [iniFindSection, iniFindSection, List.find?_append, List.find?_append]
      by_cases hs : sec.name = s
      · subst hs
        obtain ⟨found, hfound⟩ := Option.ne_none_iff_exists'.1 hsome
        rw [iniFindSection] at hfound
        rw [hfound, Option.some_or, Option.some_or]
      · have hskip : ∀ x : Section CString PIniParameter, x.name = sec.name →
            (iniSection x :: behind).find? (·.name = s) = behind.find? (·.name = s) := by
          intro x hx
          have hx' : ¬ decide ((iniSection x).name = s) = true := fun h => hs (hx ▸ of_decide_eq_true h)
          exact List.find?_cons_of_neg hx'
        rw [hskip sec rfl, hskip sec' hname.symm]

/-- A parameter is inserted into the file. -/
theorem sameViews_insert (path : CString) (es es' : List (Entry CString PIniParameter)) (param : PIniParameter) :
    SameViews ⟨path, (storedOrder (sections (es ++ es'))).map iniSection, true⟩
        ⟨path, (storedOrder (sections (es ++ .item param :: es'))).map iniSection, true⟩ ↔
      OpenSectionHidden es es' := by
  rcases List.eq_nil_or_concat (sections es) with hnil | ⟨init, sec, hes⟩
  · rw [(split_append_of_nil hnil).2, (split_append_of_nil hnil).2, sections_item, OpenSectionHidden, hnil]
    exact iff_of_true (SameViews.refl _) nofun
  · have hhidden : OpenSectionHidden es es' ↔ sec.items ++ lead es' ≠ [] ∧
        ∃ front ∈ storedInFront init (sections es'), front.name = sec.name := by
      rw [OpenSectionHidden, hes, List.concat_eq_append, List.getLast?_concat, List.dropLast_concat]
      exact ⟨fun h => h sec rfl, fun h x hx => Option.some.inj hx ▸ h⟩
    rw [List.concat_eq_append] at hes
    rw [(split_append_of_concat hes).2, (split_append_of_concat hes).2, sections_item, lead_item, hhidden]
    have hused : (sec.extend (param :: lead es')).used :=
      Section.used_iff.2 (List.append_ne_nil_of_right_ne_nil _ (List.cons_ne_nil _ _))
    by_cases hempty : sec.items ++ lead es' = []
    · refine iff_of_false (fun hsame => ?_) fun h => h.1 hempty
      have hunused : (sec.extend (lead es')).used = false :=
        Bool.eq_false_iff.2 fun h => Section.used_iff.1 h hempty
      have hlength := congrArg List.length hsame.sections
      rw [pIniFileSections_eq rfl, pIniFileSections_eq rfl, storedOrder_append_cons,
        storedOrder_append_cons] at hlength
      simp [hunused, hused] at hlength
    · have hlength : (sec.extend (lead es')).items.length ≠ (sec.extend (param :: lead es')).items.length := by
        simp [Section.extend]
      have hname : (sec.extend (lead es')).name = (sec.extend (param :: lead es')).name := rfl
      exact (sameViews_replace hname (Section.used_iff.2 hempty) hused hlength).trans (and_iff_right hempty).symm

/-! ## The file -/

theorem iniEntries_append {before after : List UInt8} (h : TextLines.Closed newline before) :
    iniEntries (before ++ after) = iniEntries before ++ iniEntries after := by
  rw [iniEntries, iniPieces, iniFileMaxLine, TextLines.pieces_append h, List.filterMap_append]
  rfl

/-- A comment is read as one line. -/
theorem iniEntries_line {rest : List UInt8} (hline : TextLines.IsLine newline line)
    (hend : TextLines.Closed newline line ∨ rest = []) (hfits : line.length ≤ iniFileMaxLine) :
    iniEntries (line ++ rest) = (lineEntry line).toList ++ iniEntries rest := by
  have hpieces : iniPieces (line ++ rest) = line :: iniPieces rest := by
    rw [iniPieces, iniFileMaxLine, TextLines.append_of_end TextLines.pieces_nil TextLines.pieces_append hend,
      TextLines.pieces_fits hline hfits]
    rfl
  rw [iniEntries, hpieces, List.filterMap_cons]
  cases lineEntry line <;> rfl

/-- **A comment is invisible exactly when it has no value behind an equals sign**, or no section is
    open where it stands, or the one that is open has parameters but is not seen. -/
theorem comment_invisible_iff (path : CString) {before comment after : List UInt8}
    (hbefore : TextLines.Closed newline before) (hline : TextLines.IsLine newline comment)
    (hend : TextLines.Closed newline comment ∨ after = []) (hfits : comment.length ≤ iniFileMaxLine)
    (hcomment : IsComment comment) :
    ∃ file file', pIniFileParse (fun _ => .ok (before ++ after)) (pIniFileNew path) = some (file, .ok ()) ∧
      pIniFileParse (fun _ => .ok (before ++ (comment ++ after))) (pIniFileNew path) = some (file', .ok ()) ∧
      (SameViews file file' ↔
        assigns (stringAt comment 0) = false ∨ OpenSectionHidden (iniEntries before) (iniEntries after)) := by
  refine ⟨_, _, pIniFileParse_eq rfl, pIniFileParse_eq rfl, ?_⟩
  obtain ⟨hnone, hsome⟩ := lineEntry_comment hcomment
  rw [iniSections, iniSections, iniEntries_append hbefore, iniEntries_append hbefore,
    iniEntries_line hline hend hfits]
  cases hassigns : assigns (stringAt comment 0) with
  | false =>
    rw [hnone hassigns]
    exact iff_of_true (SameViews.refl _) (.inl rfl)
  | true =>
    obtain ⟨param, hparam⟩ := hsome hassigns
    rw [hparam]
    exact (sameViews_insert path _ _ param).trans (or_iff_right Bool.noConfusion).symm

theorem comment_invisible_note :
    ∃ file file', pIniFileParse (fun _ => .ok (bytes "[a]\n" ++ bytes "j=1\n")) (pIniFileNew (bytes "/")) =
        some (file, .ok ()) ∧
      pIniFileParse (fun _ => .ok (bytes "[a]\n" ++ (bytes " # note\n" ++ bytes "j=1\n")))
        (pIniFileNew (bytes "/")) = some (file', .ok ()) ∧
      (SameViews file file' ↔ assigns (stringAt (bytes " # note\n") 0) = false ∨
        OpenSectionHidden (iniEntries (bytes "[a]\n")) (iniEntries (bytes "j=1\n"))) :=
  comment_invisible_iff (bytes "/") (by decide) ⟨by decide, forall_mem_of_all (by decide)⟩
    (.inl (by decide)) (by decide) ⟨ascii '#', by decide, by decide⟩

/-- A comment with an equals sign makes a key. -/
theorem comment_visible : IsComment (bytes ";k=2\n") ∧
    ∃ file file', pIniFileParse (fun _ => .ok (bytes "[a]\nj=1\n")) (pIniFileNew (bytes "/")) =
        some (file, .ok ()) ∧
      pIniFileParse (fun _ => .ok (bytes "[a]\n;k=2\nj=1\n")) (pIniFileNew (bytes "/")) = some (file', .ok ()) ∧
      pIniFileKeys file (bytes "a") = [bytes "j"] ∧ pIniFileKeys file' (bytes "a") = [bytes ";k", bytes "j"] :=
  ⟨⟨ascii ';', by decide, by decide⟩, _, _, pIniFileParse_eq rfl, pIniFileParse_eq rfl, by decide, by decide⟩

end Plibsys
