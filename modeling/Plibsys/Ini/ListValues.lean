/-
  Values that are lists of words (`p_ini_file_parameter_list` of `pinifile.c`).

  The words are collected in a buffer of `P_INI_FILE_MAX_LINE + 1` bytes.  A call fails (`none`) when
  it writes outside of it.
-/
import Plibsys.Lib.CString
import Plibsys.Lib.Words
import Plibsys.Ini.Views

namespace Plibsys

open Scanning Sectioned Words

/-! ## The buffer -/

/-- Go to the last item, and append one. -/
def pListAppend {α : Type} (data : α) : List α → List α
  | [] => [data]
  | item :: next => item :: pListAppend data next

/-- Write a byte into a buffer. -/
def putByte (buf : List UInt8) (pos : ℕ) (c : UInt8) : Option (List UInt8) :=
  if pos < buf.length then some (buf.set pos c) else none

/-- The loop of `p_ini_file_parameter_list`, on the buffer, its count, and the list. -/
def iniListBufLoop : CString → List UInt8 → ℕ → List CString → Option (List UInt8 × ℕ × List CString)
  | [], buf, buf_cnt, ret => some (buf, buf_cnt, ret)
  | c :: str, buf, buf_cnt, ret =>
    if c = ascii '}' then some (buf, buf_cnt, ret)
    else if ¬ isspace c then do
      let buf ← putByte buf buf_cnt c
      iniListBufLoop str buf (buf_cnt + 1) ret
    else do
      let buf ← putByte buf buf_cnt 0
      iniListBufLoop str buf 0 (if buf_cnt > 0 then pListAppend (stringAt buf 0) ret else ret)

/-- `p_ini_file_parameter_list`, with what is in its buffer at the start. -/
def pIniFileParameterListBuf (buf : List UInt8) (file : PIniFile) (section_ key : CString) :
    Option (List CString) :=
  match ppIniFileFindParameter file section_ key with
  | none => some []
  | some val =>
    if val.length < 3 ∨ val.head? ≠ some (ascii '{') ∨ val.getLast? ≠ some (ascii '}') then some []
    else do
      let buf ← putByte buf 0 0
      let (buf, buf_cnt, ret) ← iniListBufLoop val.tail buf 0 []
      if buf_cnt > 0 then
        let buf ← putByte buf buf_cnt 0
        return pListAppend (stringAt buf 0) ret
      else return ret

variable {buf str cur body val : CString} {ret ws : List CString} {c : UInt8} {n : ℕ}

@[simp] theorem pListAppend_eq {α : Type} (data : α) (l : List α) : pListAppend data l = l ++ [data] := by
  induction l with
  | nil => rfl
  | cons x l ih => exact congrArg (x :: ·) ih

theorem putByte_eq (h : n < buf.length) (c : UInt8) : putByte buf n c = some (buf.set n c) := if_pos h

theorem take_set_succ (h : n < buf.length) (c : UInt8) : (buf.set n c).take (n + 1) = buf.take n ++ [c] := by
  rw [List.take_add_one, List.take_set_of_le (Nat.le_refl n), List.getElem?_set_self h]
  rfl

/-- The string in the buffer, after a NUL is put behind it. -/
theorem stringAt_set (h : n < buf.length) (hnul : 0 ∉ buf.take n) : stringAt (buf.set n 0) 0 = buf.take n := by
  rw [List.set_eq_take_append_cons_drop, if_pos h]
  exact CStrings.string_append_nul hnul

/-- The buffer holds the word that is being read. -/
structure Collects (buf : List UInt8) (cur : CString) : Prop where
  eq : buf.take cur.length = cur
  nul : 0 ∉ cur

theorem Collects.stringAt_set (h : Collects buf cur) (hlen : cur.length < buf.length) :
    stringAt (buf.set cur.length 0) 0 = cur := by
  rw [Plibsys.stringAt_set hlen (h.eq.symm ▸ h.nul), h.eq]

theorem Collects.concat (h : Collects buf cur) (hlen : cur.length < buf.length) (hc : c ≠ 0) :
    Collects (buf.set cur.length c) (cur ++ [c]) := by
  refine ⟨?_, fun hmem => ?_⟩
  · rw [List.length_append, List.length_singleton, take_set_succ hlen, h.eq]
  · rcases List.mem_append.1 hmem with hmem | hmem
    · exact h.nul hmem
    · exact hc (List.mem_singleton.1 hmem).symm

/-- The loop stays inside of a buffer that the text fits in. -/
theorem iniListBufLoop_eq (h : Collects buf cur) (hlen : cur.length + str.length < buf.length) (hnul : 0 ∉ str)
    (ret : List CString) :
    ∃ buf', iniListBufLoop str buf cur.length ret =
        some (buf', (iniListLoop str cur ret).1.length, (iniListLoop str cur ret).2) ∧
      Collects buf' (iniListLoop str cur ret).1 ∧ (iniListLoop str cur ret).1.length < buf'.length := by
  induction str generalizing buf cur ret with
  | nil => exact ⟨buf, rfl, h, hlen⟩
  | cons c str ih =>
    rw [List.length_cons] at hlen
    have hlt : cur.length < buf.length := by omega
    rw [iniListBufLoop, iniListLoop]
    split
    · exact ⟨buf, rfl, h, hlt⟩
    · have hc : c ≠ 0 := fun h0 => hnul (h0 ▸ List.mem_cons_self ..)
      have hrest : 0 ∉ str := fun hmem => hnul (List.mem_cons_of_mem c hmem)
      rw [putByte_eq hlt, putByte_eq hlt]
      cases hspace : isspace c with
      | true =>
        have hcollects : Collects (buf.set cur.length 0) [] := ⟨rfl, List.not_mem_nil⟩
        have hlen' : ([] : CString).length + str.length < (buf.set cur.length 0).length := by
          rw [List.length_nil, List.length_set]
          omega
        obtain ⟨buf', hloop, hend⟩ := ih hcollects hlen' hrest (if cur ≠ [] then ret ++ [cur] else ret)
        refine ⟨buf', ?_, hend⟩
        simp only [not_true_eq_false, if_false, Option.bind_eq_bind, Option.bind_some, if_true]
        rw [← hloop, h.stringAt_set hlt, pListAppend_eq]
        simp only [gt_iff_lt, List.length_pos_iff]
        rfl
      | false =>
        have hcollects := h.concat hlt hc
        have hlen' : (cur ++ [c]).length + str.length < (buf.set cur.length c).length := by
          rw [List.length_append, List.length_singleton, List.length_set]
          omega
        obtain ⟨buf', hloop, hend⟩ := ih hcollects hlen' hrest ret
        refine ⟨buf', ?_, hend⟩
        rw [List.length_append, List.length_singleton] at hloop
        simpa using hloop

/-- The buffer does not show. -/
theorem pIniFileParameterListBuf_eq {file : PIniFile} {section_ key : CString}
    (hval : ∀ val, ppIniFileFindParameter file section_ key = some val → val.length ≤ buf.length ∧ 0 ∉ val)
    (hbuf : buf ≠ []) :
    pIniFileParameterListBuf buf file section_ key = some (pIniFileParameterList file section_ key) := by
  rw [pIniFileParameterListBuf, pIniFileParameterList]
  cases hfind : ppIniFileFindParameter file section_ key with
  | none => rfl
  | some val =>
    obtain ⟨hlen, hnul⟩ := hval val hfind
    dsimp only
    split
    · rfl
    next hbraces =>
      have hpos : 0 < buf.length := List.length_pos_iff.2 hbuf
      have hcollects : Collects (buf.set 0 0) [] := ⟨rfl, List.not_mem_nil⟩
      have htail : ([] : CString).length + val.tail.length < (buf.set 0 0).length := by
        simp only [List.length_nil, List.length_tail, List.length_set]
        omega
      obtain ⟨buf', hloop, hend, hlt⟩ :=
        iniListBufLoop_eq hcollects htail (fun h => hnul (List.mem_of_mem_tail h)) []
      rw [putByte_eq hpos, Option.bind_eq_bind, Option.bind_some]
      simp only [List.length_nil] at hloop
      rw [hloop, Option.bind_eq_bind, Option.bind_some]
      generalize iniListLoop val.tail [] [] = last at hend hlt ⊢
      obtain ⟨cur, ret⟩ := last
      dsimp only at hend hlt ⊢
      by_cases hcur : cur = []
      · subst hcur
        rfl
      · rw [if_pos (List.length_pos_iff.2 hcur), if_pos hcur, putByte_eq hlt, Option.bind_some,
          hend.stringAt_set hlt, pListAppend_eq]
        rfl

/-! ## The words of a value -/

/-- The list with the word that is being read. -/
def withLast (p : CString × List CString) : List CString := if p.1 ≠ [] then p.2 ++ [p.1] else p.2

theorem no_blanks : ∀ c ∈ ([] : CString), isspace c = false := nofun

/-- The loop appends the words up to the brace. -/
theorem iniListLoop_runs (hcur : ∀ c ∈ cur, isspace c = false) (hbody : ascii '}' ∉ body) (ret : List CString)
    (rest : CString) :
    ∃ ws, withLast (iniListLoop (body ++ ascii '}' :: rest) cur ret) = ret ++ ws ∧
      MaximalRuns isspace (cur ++ body) ws := by
  induction body generalizing cur ret with
  | nil =>
    rw [List.nil_append, iniListLoop, if_pos rfl, List.append_nil, withLast]
    by_cases hne : cur = []
    · subst hne
      exact ⟨[], (List.append_nil ret).symm, .blanks nofun⟩
    · have hrun : MaximalRuns isspace (cur ++ []) [cur] := .append_word hne hcur nofun (.blanks nofun)
      rw [List.append_nil] at hrun
      exact ⟨[cur], if_pos hne, hrun⟩
  | cons c body ih =>
    have hc : c ≠ ascii '}' := fun h => hbody (h ▸ List.mem_cons_self ..)
    have hrest : ascii '}' ∉ body := fun h => hbody (List.mem_cons_of_mem c h)
    rw [List.cons_append, iniListLoop, if_neg hc]
    cases hspace : isspace c with
    | true =>
      obtain ⟨ws, hws, hruns⟩ := ih no_blanks hrest (if cur ≠ [] then ret ++ [cur] else ret)
      rw [List.nil_append] at hruns
      have hblank : MaximalRuns isspace (c :: body) ws := .cons_blank hspace hruns
      rw [if_pos rfl, hws]
      by_cases hne : cur = []
      · subst hne
        exact ⟨ws, rfl, hblank⟩
      · refine ⟨cur :: ws, ?_, .append_word hne hcur ?_ hblank⟩
        · rw [if_pos hne, List.append_assoc]
          rfl
        · intro x hx
          rwa [← Option.some.inj hx]
    | false =>
      rw [if_neg Bool.false_ne_true]
      have hcur' : ∀ x ∈ cur ++ [c], isspace x = false := by
        intro x hx
        rcases List.mem_append.1 hx with hx | hx
        · exact hcur x hx
        · rw [List.mem_singleton.1 hx, hspace]
      obtain ⟨ws, hws, hruns⟩ := ih hcur' hrest ret
      rw [List.append_assoc] at hruns
      exact ⟨ws, hws, hruns⟩

/-! ## The values of a file -/

variable {line in_file : List UInt8} {path section_ key : CString} {param : PIniParameter}

theorem unquoteEmpty_isInfix (val : CString) : unquoteEmpty val <:+: val := by
  rw [unquoteEmpty]
  split
  · exact List.nil_infix
  · exact List.infix_rfl

/-- The value of a parameter is part of its line. -/
theorem value_isInfix (h : lineEntry line = some (.item param)) :
    param.value <:+: stringAt line (bomShift (srcLine line)) := by
  have hpart : ∀ {fmt : List (Directive UInt8)} {key value : CString},
      bothFound (sscanf (dstLine line) fmt) = some (key, value) → value <:+: dstLine line := by
    intro fmt key value hboth
    rw [bothFound.eq_def] at hboth
    split at hboth
    · rename_i k v hscan
      cases hboth
      exact isInfix_of_mem_scan (hscan ▸ List.mem_cons_of_mem _ (List.mem_singleton.2 rfl))
    · cases hboth
  rw [lineEntry] at h
  split at h
  · cases h
  · split at h
    next key value hscan =>
      cases h
      have hvalue : value <:+: dstLine line := by
        rw [scanParameter] at hscan
        rcases Option.or_eq_some_iff.1 hscan with hscan | ⟨-, hscan⟩
        · exact hpart hscan
        · rcases Option.or_eq_some_iff.1 hscan with hscan | ⟨-, hscan⟩
          · exact hpart hscan
          · exact hpart hscan
      have hline : dstLine line <:+: stringAt line (bomShift (srcLine line)) := by
        rw [dstLine, stringAt_srcLine]
        exact trim_isInfix ..
      exact ((unquoteEmpty_isInfix _).trans (trim_isInfix ..)).trans (hvalue.trans hline)
    · cases h

/-- A value is no longer than a line, and it is a string. -/
theorem find_parsedFile (h : ppIniFileFindParameter (parsedFile path in_file) section_ key = some val) :
    val.length ≤ iniFileMaxLine ∧ 0 ∉ val := by
  rw [ppIniFileFindParameter_eq rfl, Option.bind_eq_some_iff] at h
  obtain ⟨sec, hsec, hkey⟩ := h
  obtain ⟨param, hparam, rfl⟩ := Option.map_eq_some_iff.1 hkey
  obtain ⟨s, hs, rfl⟩ := List.mem_map.1 (List.mem_of_find?_eq_some hsec)
  have hitem : param ∈ s.items := List.mem_reverse.1 (List.mem_of_find?_eq_some hparam)
  have hentry : .item param ∈ iniEntries in_file := (mem_of_mem_split _).2 s (mem_storedOrder.1 hs).1 hitem
  obtain ⟨line, hline, hvalue⟩ := List.mem_filterMap.1 hentry
  have hpart := value_isInfix hvalue
  constructor
  · exact hpart.length_le.trans (length_stringAt_le.trans (TextLines.length_of_mem_pieces hline))
  · exact fun hnul => CStrings.nul_notMem_string _ (hpart.subset hnul)

/-- A file is parsed into its sections. -/
theorem eq_parsedFile {fopen : CString → Except (pint × pint) (List UInt8)} {file : PIniFile}
    (h : pIniFileParse fopen (pIniFileNew path) = some (file, .ok ())) :
    ∃ in_file, file = parsedFile path in_file := by
  cases hopen : fopen path with
  | error e =>
    rw [pIniFileParse_error hopen] at h
    cases h
  | ok in_file =>
    rw [pIniFileParse_eq hopen] at h
    cases h
    exact ⟨in_file, rfl⟩

/-- A value in braces is a list. -/
theorem pIniFileParameterList_braces {file : PIniFile}
    (hval : ppIniFileFindParameter file section_ key = some (ascii '{' :: (body ++ [ascii '}'])))
    (hne : body ≠ []) :
    pIniFileParameterList file section_ key = withLast (iniListLoop (body ++ [ascii '}']) [] []) := by
  have hlen := List.length_pos_iff.2 hne
  rw [pIniFileParameterList, hval]
  dsimp only
  rw [if_neg]
  · rfl
  · simp only [List.length_cons, List.length_append, List.length_nil, List.head?_cons, List.getLast?_cons,
      List.getLast?_append]
    simp
    omega

/-- Any other value is no list. -/
theorem pIniFileParameterList_other {file : PIniFile} (hval : ppIniFileFindParameter file section_ key = some val)
    (h : val.length < 3 ∨ val.head? ≠ some (ascii '{') ∨ val.getLast? ≠ some (ascii '}')) :
    pIniFileParameterList file section_ key = [] := by
  rw [pIniFileParameterList, hval]
  exact if_pos h

theorem notMem_intercalate {words : List CString} {d : UInt8} (hcd : c ≠ d) (h : ∀ w ∈ words, c ∉ w) :
    c ∉ [d].intercalate words := by
  induction words with
  | nil => exact List.not_mem_nil
  | cons w words ih =>
    have hw := h w (List.mem_cons_self ..)
    cases words with
    | nil => rwa [List.intercalate_singleton]
    | cons v words =>
      rw [List.intercalate_cons_cons, List.mem_append, List.mem_append, List.mem_singleton]
      rintro ((hmem | hmem) | hmem)
      · exact hw hmem
      · exact hcd hmem
      · exact ih (fun u hu => h u (List.mem_cons_of_mem w hu)) hmem

/-- **List values**: for every parsed file and whatever is in the buffer before, a value in braces gives the
    words of its body, and any other value gives no list. -/
theorem pIniFileParameterList_words (path : CString) (fopen : CString → Except (pint × pint) (List UInt8))
    {file : PIniFile}
    (hparse : pIniFileParse fopen (pIniFileNew path) = some (file, .ok ()))
    (hval : ppIniFileFindParameter file section_ key = some val) {buf : List UInt8}
    (hbuf : buf.length = iniFileMaxLine + 1) :
    (∀ body, body ≠ [] → ascii '}' ∉ body → val = ascii '{' :: (body ++ [ascii '}']) →
      ∀ ws, pIniFileParameterListBuf buf file section_ key = some ws ↔ MaximalRuns isspace body ws) ∧
    (∀ words : List CString, (∀ w ∈ words, w ≠ [] ∧ ascii '}' ∉ w ∧ ∀ c ∈ w, isspace c = false) →
      val = ascii '{' :: ([ascii ' '].intercalate words ++ [ascii '}']) →
      pIniFileParameterListBuf buf file section_ key = some words) ∧
    (val.head? ≠ some (ascii '{') ∨ val.getLast? ≠ some (ascii '}') →
      pIniFileParameterListBuf buf file section_ key = some []) := by
  obtain ⟨in_file, rfl⟩ := eq_parsedFile hparse
  have hfits : ∀ v, ppIniFileFindParameter (parsedFile path in_file) section_ key = some v →
      v.length ≤ buf.length ∧ 0 ∉ v := by
    intro v hv
    obtain ⟨hlen, hnul⟩ := find_parsedFile hv
    exact ⟨by omega, hnul⟩
  rw [pIniFileParameterListBuf_eq hfits (List.ne_nil_of_length_pos (by omega))]
  have hbraces : ∀ body, body ≠ [] → ascii '}' ∉ body → val = ascii '{' :: (body ++ [ascii '}']) →
      MaximalRuns isspace body (pIniFileParameterList (parsedFile path in_file) section_ key) := by
    rintro body hne hbody rfl
    obtain ⟨ws, hws, hruns⟩ := iniListLoop_runs no_blanks hbody [] []
    rwa [pIniFileParameterList_braces hval hne, hws]
  refine ⟨fun body hne hbody hbody' ws => ?_, fun words hwords hwords' => congrArg some ?_, fun hother =>
    congrArg some (pIniFileParameterList_other hval (.inr hother))⟩
  · have hruns := hbraces body hne hbody hbody'
    constructor
    · intro h
      rwa [← Option.some.inj h]
    · exact fun h => congrArg some (hruns.unique h)
  · by_cases hnil : words = []
    · subst hnil
      subst hwords'
      exact pIniFileParameterList_other hval (.inl (by decide))
    · have hruns : MaximalRuns isspace ([ascii ' '].intercalate words) words :=
        .intercalate (by decide) fun w hw => ⟨(hwords w hw).1, (hwords w hw).2.2⟩
      have hbrace : ascii '}' ∉ [ascii ' '].intercalate words :=
        notMem_intercalate (by decide) fun w hw => (hwords w hw).2.1
      have hne : [ascii ' '].intercalate words ≠ [] := by
        intro h0
        rw [h0] at hruns
        exact hnil (hruns.unique (.blanks nofun))
      exact (hbraces _ hne hbrace hwords').unique hruns

theorem pIniFileParameterList_words_two :
    pIniFileParameterListBuf (List.replicate 1025 7) (parsedFile (bytes "/") (bytes "[s]\nk={a  bc }\n"))
      (bytes "s") (bytes "k") = some [bytes "a", bytes "bc"] := by
  have hval : ppIniFileFindParameter (parsedFile (bytes "/") (bytes "[s]\nk={a  bc }\n")) (bytes "s") (bytes "k") =
      some (bytes "{a  bc }") := by decide
  obtain ⟨hbraces, -, -⟩ := pIniFileParameterList_words (bytes "/")
    (fun _ => .ok (bytes "[s]\nk={a  bc }\n")) (pIniFileParse_eq rfl) hval
    (List.length_replicate : (List.replicate 1025 (7 : UInt8)).length = 1025)
  refine (hbraces (bytes "a  bc ") (by decide) (by decide) (by decide) _).2 ?_
  refine .append_word (w := bytes "a") (by decide) (forall_mem_of_all (by decide)) (by rintro x ⟨⟩; rfl) ?_
  refine .cons_blank (by decide) (.cons_blank (by decide) ?_)
  exact .append_word (w := bytes "bc") (by decide) (forall_mem_of_all (by decide)) (by rintro x ⟨⟩; rfl)
    (.blanks (forall_mem_of_all (by decide)))

end Plibsys
