/-
  A file that is written section by section is read back.
-/
import Plibsys.Ini.Rendered
import Plibsys.Ini.Views

namespace Plibsys

open Scanning Sectioned

/-- The lines of a section. -/
def sectionLines (s : Section CString PIniParameter) : List (List UInt8) :=
  headerLine s.name :: s.items.map parameterLine

/-- A file of sections. -/
def renderIni (ss : List (Section CString PIniParameter)) : List UInt8 := (ss.flatMap sectionLines).flatten

/-- A section that can be written. -/
structure WritableSection (s : Section CString PIniParameter) : Prop where
  name : SectionName s.name
  used : s.items ≠ []
  keys : (s.items.map (·.name)).Nodup
  params : ∀ param ∈ s.items, WritableParameter param

/-- A file that can be written. -/
structure WritableFile (ss : List (Section CString PIniParameter)) : Prop where
  names : (ss.map (·.name)).Nodup
  sections : ∀ s ∈ ss, WritableSection s

variable {s : Section CString PIniParameter} {ss : List (Section CString PIniParameter)} {line : List UInt8}

/-! ## Reading the lines -/

/-- A line that is read at once. -/
structure WholeLine (line : List UInt8) : Prop where
  isLine : TextLines.IsLine newline line
  closed : TextLines.Closed newline line
  fits : line.length ≤ iniFileMaxLine

theorem wholeLine_concat {text : CString} (htext : Plain text) (hline : line = text ++ [10])
    (hfits : line.length ≤ iniFileMaxLine) : WholeLine line := by
  subst hline
  refine ⟨⟨List.append_ne_nil_of_right_ne_nil _ (List.cons_ne_nil _ _), fun c hc => ?_⟩, fun c hc => ?_, hfits⟩
  · rw [List.dropLast_concat] at hc
    exact decide_eq_false (htext c hc).1
  · rw [List.getLast?_concat] at hc
    rw [← Option.some.inj hc]
    rfl

theorem iniPieces_flatten {lines : List (List UInt8)} (h : ∀ line ∈ lines, WholeLine line) :
    iniPieces lines.flatten = lines := by
  induction lines with
  | nil => rfl
  | cons line lines ih =>
    have hline := h line (List.mem_cons_self ..)
    rw [List.flatten_cons, iniPieces]
    refine (TextLines.pieces_append (n := 1023) hline.closed _).trans ?_
    rw [TextLines.pieces_fits hline.isLine hline.fits]
    exact congrArg (line :: ·) (ih fun l hl => h l (List.mem_cons_of_mem _ hl))

theorem wholeLine_of_mem (h : WritableSection s) (hline : line ∈ sectionLines s) : WholeLine line := by
  rcases List.mem_cons.1 hline with rfl | hline
  · exact wholeLine_concat (plain_headerText h.name) (headerLine_eq _) h.name.fits
  · obtain ⟨param, hparam, rfl⟩ := List.mem_map.1 hline
    exact wholeLine_concat (plain_parameterText (h.params param hparam)) (parameterLine_eq _)
      (h.params param hparam).fits

/-! ## The sections of the file -/

/-- The entries of a section. -/
def sectionEntries (s : Section CString PIniParameter) : List (Entry CString PIniParameter) :=
  .header s.name :: s.items.map .item

theorem filterMap_sectionLines (h : WritableSection s) :
    (sectionLines s).filterMap lineEntry = sectionEntries s := by
  rw [sectionLines, List.filterMap_cons_some (lineEntry_headerLine h.name), List.filterMap_map, sectionEntries]
  refine congrArg (_ :: ·) ?_
  rw [← List.filterMap_eq_map]
  exact List.filterMap_congr fun param hparam => lineEntry_parameterLine (h.params param hparam)

theorem iniEntries_renderIni (h : ∀ s ∈ ss, WritableSection s) :
    iniEntries (renderIni ss) = ss.flatMap sectionEntries := by
  have hlines : ∀ line ∈ ss.flatMap sectionLines, WholeLine line := by
    intro line hline
    obtain ⟨s, hs, hline⟩ := List.mem_flatMap.1 hline
    exact wholeLine_of_mem (h s hs) hline
  rw [iniEntries, renderIni, iniPieces_flatten hlines, List.filterMap_flatMap]
  exact List.flatMap_congr fun s hs => filterMap_sectionLines (h s hs)

theorem split_items (ps : List PIniParameter) (es : List (Entry CString PIniParameter)) :
    lead (ps.map .item ++ es) = ps ++ lead es ∧ sections (ps.map .item ++ es) = sections es := by
  induction ps with
  | nil => exact ⟨rfl, rfl⟩
  | cons p ps ih => exact ⟨congrArg (p :: ·) ih.1, ih.2⟩

theorem split_sectionEntries (ss : List (Section CString PIniParameter)) :
    lead (ss.flatMap sectionEntries) = [] ∧ sections (ss.flatMap sectionEntries) = ss := by
  induction ss with
  | nil => exact ⟨rfl, rfl⟩
  | cons s ss ih =>
    obtain ⟨hlead, hsections⟩ := split_items s.items (ss.flatMap sectionEntries)
    rw [List.flatMap_cons, sectionEntries, List.cons_append, lead_header, sections_header, hlead, hsections,
      ih.1, ih.2,
      List.append_nil]
    exact ⟨rfl, rfl⟩

/-- Storing only changes the order of the sections with items. -/
theorem storedOrder_perm {N P : Type} (ss : List (Section N P)) :
    (storedOrder ss).Perm (ss.filter Section.used) := by
  rcases ss.eq_nil_or_concat with rfl | ⟨ss, s, rfl⟩
  · exact List.Perm.refl _
  · rw [storedOrder, List.concat_eq_append, List.dropLast_concat, List.getLast?_concat, List.filter_append]
    exact (List.reverse_perm _).append_right _

/-- With different names, a lookup finds the section. -/
theorem find?_of_nodup {α β : Type} [DecidableEq β] {f : α → β} {l : List α} (hnodup : (l.map f).Nodup) {x : α}
    (hx : x ∈ l) : l.find? (fun y => decide (f y = f x)) = some x := by
  induction l with
  | nil => cases hx
  | cons y l ih =>
    rw [List.map_cons, List.nodup_cons] at hnodup
    rcases List.mem_cons.1 hx with rfl | hx
    · exact List.find?_cons_of_pos (decide_eq_true rfl)
    · have hne : f y ≠ f x := fun heq => hnodup.1 (heq ▸ List.mem_map_of_mem hx)
      rw [List.find?_cons_of_neg (by rw [decide_eq_true_iff]; exact hne)]
      exact ih hnodup.2 hx

/-- **Round trip**: the names, the keys of each section in order, and every value. -/
theorem renderIni_roundTrip (path : CString) (h : WritableFile ss) :
    ∃ file, pIniFileParse (fun _ => .ok (renderIni ss)) (pIniFileNew path) = some (file, .ok ()) ∧
      (pIniFileSections file).Perm (ss.map (·.name)) ∧
      ∀ s ∈ ss, pIniFileKeys file s.name = s.items.map (·.name) ∧
        ∀ param ∈ s.items, ∀ default_val,
          pIniFileParameterString file s.name param.name default_val = some param.value := by
  refine ⟨parsedFile path (renderIni ss), pIniFileParse_eq rfl, ?_⟩
  have hsections : iniSections (renderIni ss) = (storedOrder ss).map iniSection := by
    rw [iniSections, iniEntries_renderIni h.sections, (split_sectionEntries ss).2]
  have hused : ss.filter Section.used = ss :=
    List.filter_eq_self.2 fun s hs => Section.used_iff.2 (h.sections s hs).used
  have hperm : (storedOrder ss).Perm ss := by
    have hstored := storedOrder_perm ss
    rwa [hused] at hstored
  have hnames : ((iniSections (renderIni ss)).map (·.name)).Perm (ss.map (·.name)) := by
    rw [hsections, List.map_map]
    exact hperm.map _
  refine ⟨?_, fun s hs => ?_⟩
  · rw [pIniFileSections_eq rfl]
    exact (List.reverse_perm _).trans hnames
  · have hmem : iniSection s ∈ iniSections (renderIni ss) := by
      rw [hsections]
      exact List.mem_map_of_mem (hperm.mem_iff.2 hs)
    have hfind : iniFindSection s.name (iniSections (renderIni ss)) = some (iniSection s) :=
      find?_of_nodup (hnames.nodup_iff.2 h.names) hmem
    constructor
    · rw [pIniFileKeys_eq rfl, parsedFile, hfind, Option.elim_some, iniSection, List.map_reverse,
        List.reverse_reverse]
    · intro param hparam default_val
      have hkeys : ((iniSection s).keys.map (·.name)).Nodup := by
        rw [iniSection, List.map_reverse]
        exact (List.reverse_perm _).nodup_iff.2 (h.sections s hs).keys
      have hvalue : ppIniFileFindParameter (parsedFile path (renderIni ss)) s.name param.name =
        some param.value := by
        rw [ppIniFileFindParameter_eq rfl, parsedFile, hfind, Option.bind_some,
          find?_of_nodup hkeys (List.mem_reverse.2 hparam)]
        rfl
      rw [pIniFileParameterString, hvalue]

/-- Two sections, with an empty value and with one that holds special characters. -/
theorem renderIni_roundTrip_two :
    ∃ file, pIniFileParse (fun _ => .ok (renderIni
        [⟨[97], [⟨[107], []⟩, ⟨[108], [59, 35, 61, 93]⟩]⟩, ⟨[98], [⟨[107], [49]⟩]⟩])) (pIniFileNew [47]) =
        some (file, .ok ()) ∧
      (pIniFileSections file).Perm [[97], [98]] ∧
      ∀ s ∈ [(⟨[97], [⟨[107], []⟩, ⟨[108], [59, 35, 61, 93]⟩]⟩ : Section CString PIniParameter),
          ⟨[98], [⟨[107], [49]⟩]⟩],
        pIniFileKeys file s.name = s.items.map (·.name) ∧
          ∀ param ∈ s.items, ∀ default_val,
            pIniFileParameterString file s.name param.name default_val = some param.value := by
  have hname : ∀ name ∈ [[97], [98]], SectionName name := by
    intro name hname
    simp only [List.mem_cons, List.not_mem_nil, or_false] at hname
    rcases hname with rfl | rfl <;>
      exact ⟨by decide, by decide, by decide, forall_mem_of_all (by decide), by decide⟩
  have hparam : ∀ param ∈ [(⟨[107], []⟩ : PIniParameter), ⟨[108], [59, 35, 61, 93]⟩, ⟨[107], [49]⟩],
      WritableParameter param := by
    intro param hparam
    simp only [List.mem_cons, List.not_mem_nil, or_false] at hparam
    rcases hparam with rfl | rfl | rfl <;>
      exact ⟨by decide, by decide, by decide, forall_mem_of_all (by decide), by decide, by decide, by decide,
        by decide, forall_mem_of_all (by decide), by decide, by decide⟩
  refine renderIni_roundTrip [47] ⟨by decide, fun s hs => ?_⟩
  simp only [List.mem_cons, List.not_mem_nil, or_false] at hs
  rcases hs with rfl | rfl
  · exact ⟨hname _ (by decide), by decide, by decide, fun param hp =>
      hparam param (List.mem_append_left [_] hp)⟩
  · exact ⟨hname _ (by decide), by decide, by decide, fun param hp =>
      hparam param (List.mem_append_right [_, _] hp)⟩

end Plibsys
