/-
  The views of a parsed file agree.
-/
import Plibsys.Ini.Access
import Plibsys.Ini.Entries

namespace Plibsys

open Sectioned

variable {file : PIniFile} {in_file : List UInt8} {s k : CString}

theorem foldl_prepend {α β : Type} (f : α → β) (l : List α) (ret : List β) :
    l.foldl (fun ret x => f x :: ret) ret = (l.map f).reverse ++ ret := by
  induction l generalizing ret with
  | nil => rfl
  | cons x l ih =>
    rw [List.foldl_cons, ih, List.map_cons, List.reverse_cons, List.append_assoc]
    rfl

/-! ## Views as functions of the list of sections -/

section
variable (hparsed : file.is_parsed = true)
include hparsed

theorem pIniFileSections_eq : pIniFileSections file = (file.sections.map (·.name)).reverse := by
  rw [pIniFileSections, if_pos hparsed, foldl_prepend, List.append_nil]

theorem pIniFileKeys_eq :
    pIniFileKeys file s =
      ((iniFindSection s file.sections).elim [] fun sec => (sec.keys.map (·.name)).reverse) := by
  rw [pIniFileKeys, if_pos hparsed]
  cases iniFindSection s file.sections with
  | none => rfl
  | some sec => exact (foldl_prepend ..).trans (List.append_nil _)

theorem pIniFileIsKeyExists_iff : pIniFileIsKeyExists file s k = true ↔ k ∈ pIniFileKeys file s := by
  rw [pIniFileKeys_eq hparsed, pIniFileIsKeyExists, if_pos hparsed]
  cases iniFindSection s file.sections with
  | none => exact ⟨nofun, nofun⟩
  | some sec =>
    simp only [Option.elim_some, List.any_eq_true, decide_eq_true_eq, List.mem_reverse, List.mem_map]

theorem ppIniFileFindParameter_eq :
    ppIniFileFindParameter file s k = (iniFindSection s file.sections).bind fun sec =>
      (sec.keys.find? (·.name = k)).map (·.value) := by
  rw [ppIniFileFindParameter, if_pos hparsed]
  cases iniFindSection s file.sections <;> rfl

theorem pIniFileParameterString_iff : k ∈ pIniFileKeys file s ↔ pIniFileParameterString file s k none ≠ none := by
  have hstring : pIniFileParameterString file s k none = ppIniFileFindParameter file s k := by
    rw [pIniFileParameterString]
    cases ppIniFileFindParameter file s k <;> rfl
  rw [hstring, ppIniFileFindParameter_eq hparsed, pIniFileKeys_eq hparsed]
  cases iniFindSection s file.sections with
  | none => exact ⟨nofun, fun h => absurd rfl h⟩
  | some sec =>
    simp only [Option.elim_some, Option.bind_some, List.mem_reverse, List.mem_map, ne_eq, Option.map_eq_none_iff,
      List.find?_eq_none, decide_eq_true_eq, not_forall, not_not, exists_prop]

/-- The name of a section is looked up with success. -/
theorem exists_findSection (hs : s ∈ pIniFileSections file) :
    ∃ sec ∈ file.sections, iniFindSection s file.sections = some sec := by
  rw [pIniFileSections_eq hparsed, List.mem_reverse, List.mem_map] at hs
  obtain ⟨sec, hmem, rfl⟩ := hs
  cases hfind : iniFindSection sec.name file.sections with
  | none => exact absurd (decide_eq_true rfl) (List.find?_eq_none.1 hfind sec hmem)
  | some sec' => exact ⟨sec', List.mem_of_find?_eq_some hfind, rfl⟩

end

/-! ## The sections of a file -/

theorem mem_storedOrder {N P : Type} {ss : List (Section N P)} {x : Section N P} :
    x ∈ storedOrder ss ↔ x ∈ ss ∧ x.used := by
  have hmem : x ∈ ss ↔ x ∈ ss.dropLast ∨ x ∈ ss.getLast?.toList := by
    rw [← List.mem_append]
    cases hlast : ss.getLast? with
    | none =>
      rw [List.getLast?_eq_none_iff.1 hlast]
      rfl
    | some last => rw [Option.toList_some, List.dropLast_append_getLast? last hlast]
  rw [storedOrder, List.mem_append, List.mem_reverse, List.mem_filter, List.mem_filter, hmem, or_and_right]

/-- Sections without keys are not stored. -/
theorem keys_ne_nil {sec : PIniSection} (h : sec ∈ iniSections in_file) : sec.keys ≠ [] := by
  obtain ⟨s, hs, rfl⟩ := List.mem_map.1 h
  exact List.reverse_ne_nil_iff.2 (Section.used_iff.1 (mem_storedOrder.1 hs).2)

/-- **The views agree**, for every content of the file; and a second parse changes nothing. -/
theorem pIniFile_views (path : CString) (in_file : List UInt8) :
    ∃ file, pIniFileParse (fun _ => .ok in_file) (pIniFileNew path) = some (file, .ok ()) ∧
      (∀ name ∈ pIniFileSections file, pIniFileKeys file name ≠ []) ∧
      (∀ s k, (pIniFileIsKeyExists file s k = true ↔ k ∈ pIniFileKeys file s) ∧
        (k ∈ pIniFileKeys file s ↔ pIniFileParameterString file s k none ≠ none)) ∧
      ∀ fopen, pIniFileParse fopen file = some (file, .ok ()) := by
  refine ⟨parsedFile path in_file, pIniFileParse_eq rfl, ?_, fun s k =>
    ⟨pIniFileIsKeyExists_iff rfl, pIniFileParameterString_iff rfl⟩, fun _ => rfl⟩
  intro name hname
  obtain ⟨sec, hmem, hfind⟩ := exists_findSection rfl hname
  rw [pIniFileKeys_eq rfl, hfind]
  intro hnil
  exact keys_ne_nil hmem (List.map_eq_nil_iff.1 (List.reverse_eq_nil_iff.1 hnil))

end Plibsys
