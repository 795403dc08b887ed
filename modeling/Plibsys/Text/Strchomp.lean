/-
  Trimming strings (`p_strchomp` of `pstring.c`).

  A string is the list of its bytes before the NUL.  Reading outside of it, or of its NUL, fails
  (`none`).
-/
import Plibsys.Lib.Scan
import Plibsys.Types

namespace Plibsys

open Scanning

/-- A string of C. -/
abbrev CString := List UInt8

def ascii (c : Char) : UInt8 := UInt8.ofNat c.toNat

/-- The bytes of a text. -/
def bytes (text : String) : List UInt8 := text.toList.map ascii

/-- `isspace` in the C locale. -/
def isspace (c : UInt8) : Bool := c = 32 || (9 ≤ c && c ≤ 13)

variable (str : CString)

/-- The byte at a position. -/
def readAt (pos : ℤ) : Option UInt8 := if pos < 0 then none else (str ++ [0])[pos.toNat]?

/-- The first loop: where the string starts. -/
def chompStart (pos_end : ℤ) : ℕ → ℤ → Option ℤ
  | 0, _ => none
  | fuel + 1, pos_start =>
    if pos_start < pos_end then do
      if isspace (← readAt str pos_start) then chompStart pos_end fuel (pos_start + 1) else return pos_start
    else some pos_start

/-- The second loop: where the string ends. -/
def chompEnd : ℕ → ℤ → Option ℤ
  | 0, _ => none
  | fuel + 1, pos_end =>
    if pos_end > 0 then do
      if isspace (← readAt str pos_end) then chompEnd fuel (pos_end - 1) else return pos_end
    else some pos_end

/-- `memcpy` of the bytes from a position on. -/
def copyFrom : ℤ → ℕ → Option CString
  | _, 0 => some []
  | pos, n + 1 => do
    let c ← readAt str pos
    let rest ← copyFrom (pos + 1) n
    return c :: rest

/-- `p_strchomp`, when memory is allocated. -/
def pStrchomp : Option CString := do
  let pos_end : ℤ := (str.length : ℤ) - 1
  let pos_start ← chompStart str pos_end (str.length + 1) 0
  let pos_end ← chompEnd str (str.length + 1) pos_end
  if pos_end < pos_start then
    return []
  if pos_end = pos_start then
    if isspace (← readAt str pos_end) then
      return []
  let str_len := pos_end - pos_start + 2
  copyFrom str pos_start (str_len - 1).toNat

/-! ## The loops -/

variable {str} {fuel k : ℕ} {c : UInt8}

theorem readAt_natCast : readAt str k = (str ++ [0])[k]? := by
  rw [readAt, if_neg (by omega)]
  rfl

theorem readAt_of_getElem? (h : str[k]? = some c) : readAt str k = some c := by
  obtain ⟨hk, rfl⟩ := List.getElem?_eq_some_iff.1 h
  rw [readAt_natCast, List.getElem?_append_left hk, List.getElem?_eq_getElem hk]

/-- The bytes are read if they are all in the string. -/
theorem copyFrom_eq {n : ℕ} (h : k + n ≤ str.length) : copyFrom str k n = some ((str.drop k).take n) := by
  induction n generalizing k with
  | zero => rw [List.take_zero, copyFrom]
  | succ n ih =>
    have hk : k < str.length := by omega
    have hrest : copyFrom str ((k + 1 : ℕ) : ℤ) n = some ((str.drop (k + 1)).take n) := ih (by omega)
    rw [copyFrom, readAt_of_getElem? (List.getElem?_eq_getElem hk), Option.bind_eq_bind, Option.bind_some,
      show (k : ℤ) + 1 = ((k + 1 : ℕ) : ℤ) by omega, hrest, List.drop_eq_getElem_cons hk, List.take_succ_cons]
    rfl

/-- The first loop stops at the end, or at the first byte that is not a blank. -/
theorem chompStart_eq {e j : ℕ} (hspace : ∀ i, j ≤ i → i < k → ∃ c, str[i]? = some c ∧ isspace c)
    (hj : j ≤ k) (hke : k ≤ e) (hstop : k = e ∨ ∃ c, str[k]? = some c ∧ isspace c = false) (hfuel : k - j < fuel) :
    chompStart str e fuel j = some (k : ℤ) := by
  induction fuel generalizing j with
  | zero => cases hfuel
  | succ fuel ih =>
    rw [chompStart]
    rcases Nat.lt_or_eq_of_le hj with hlt | rfl
    · obtain ⟨c, hc, hblank⟩ := hspace j (Nat.le_refl _) hlt
      rw [if_pos (by omega), readAt_of_getElem? hc]
      show (if isspace c then chompStart str e fuel (j + 1) else _) = _
      rw [if_pos hblank]
      exact ih (j := j + 1) (fun i hi => hspace i (by omega)) hlt (by omega)
    · rcases hstop with rfl | ⟨c, hc, hblank⟩
      · rw [if_neg (by omega)]
      · split
        · rw [readAt_of_getElem? hc]
          show (if isspace c then _ else _) = _
          rw [hblank]
          rfl
        · rfl

/-- The second loop stops at the start, or at the last byte that is not a blank. -/
theorem chompEnd_eq {j : ℕ} (hspace : ∀ i, k < i → i ≤ j → ∃ c, str[i]? = some c ∧ isspace c)
    (hj : k ≤ j) (hstop : k = 0 ∨ ∃ c, str[k]? = some c ∧ isspace c = false) (hfuel : j - k < fuel) :
    chompEnd str fuel j = some (k : ℤ) := by
  induction fuel generalizing j with
  | zero => cases hfuel
  | succ fuel ih =>
    rw [chompEnd]
    rcases Nat.lt_or_eq_of_le hj with hlt | rfl
    · obtain ⟨c, hc, hblank⟩ := hspace j hlt (Nat.le_refl _)
      obtain ⟨j, rfl⟩ := Nat.exists_eq_add_of_lt hlt
      rw [if_pos (by omega), readAt_of_getElem? hc]
      show (if isspace c then chompEnd str fuel _ else _) = _
      rw [if_pos hblank, show ((k + j + 1 : ℕ) : ℤ) - 1 = ((k + j : ℕ) : ℤ) by omega]
      exact ih (fun i hi hle => hspace i hi (by omega)) (by omega) (by omega)
    · rcases hstop with rfl | ⟨c, hc, hblank⟩
      · rfl
      · split
        · rw [readAt_of_getElem? hc]
          show (if isspace c then _ else _) = _
          rw [hblank]
          rfl
        · rfl

/-- The string with the blanks around it. -/
theorem getElem?_around {a m b : List UInt8} (i : ℕ) :
    (i < a.length → ∃ c ∈ a, (a ++ (m ++ b))[i]? = some c) ∧
      (a.length + m.length ≤ i → i < (a ++ (m ++ b)).length → ∃ c ∈ b, (a ++ (m ++ b))[i]? = some c) := by
  constructor
  · intro hi
    exact ⟨a[i], List.getElem_mem hi, by rw [List.getElem?_append_left hi, List.getElem?_eq_getElem hi]⟩
  · intro hi hlen
    rw [List.length_append, List.length_append] at hlen
    have hlt : i - a.length - m.length < b.length := by omega
    refine ⟨b[i - a.length - m.length], List.getElem_mem hlt, ?_⟩
    rw [List.getElem?_append_right (by omega), List.getElem?_append_right (by omega), List.getElem?_eq_getElem hlt]

theorem pStrchomp_blank (hblank : ∀ c ∈ str, isspace c) : pStrchomp str = some [] := by
  rcases str with _ | ⟨c, _ | ⟨d, str⟩⟩
  · rfl
  · have hone : pStrchomp [c] = if isspace c then some [] else some [c] := rfl
    rw [hone, if_pos (hblank c (List.mem_singleton.2 rfl))]
  · have hget : ∀ i, i < str.length + 2 → ∃ e, (c :: d :: str)[i]? = some e ∧ isspace e := fun i hi =>
      ⟨_, List.getElem?_eq_getElem hi, hblank _ (List.getElem_mem hi)⟩
    have hcast : (((c :: d :: str).length : ℕ) : ℤ) - 1 = (str.length + 1 : ℕ) := by
      rw [List.length_cons, List.length_cons]
      omega
    have hstart : chompStart (c :: d :: str) (str.length + 1 : ℕ) ((c :: d :: str).length + 1) 0 =
        some ((str.length + 1 : ℕ) : ℤ) :=
      chompStart_eq (j := 0) (fun i _ hi =>
        hget i (Nat.lt_succ_of_lt hi)) (Nat.zero_le _) (Nat.le_refl _) (.inl rfl)
        (Nat.lt_succ_of_lt (Nat.lt_succ_self _))
    have hend : chompEnd (c :: d :: str) ((c :: d :: str).length + 1) (str.length + 1 : ℕ) = some ((0 : ℕ) : ℤ) :=
      chompEnd_eq (fun i _ hi => hget i (Nat.lt_succ_of_le hi)) (Nat.zero_le _) (.inl rfl)
        (Nat.lt_succ_of_lt (Nat.lt_succ_self _))
    rw [pStrchomp, hcast, hstart, Option.bind_eq_bind, Option.bind_some, hend, Option.bind_eq_bind,
      Option.bind_some,
      if_pos (by omega)]
    rfl

/-- **`p_strchomp` trims.** -/
theorem pStrchomp_eq (str : CString) : pStrchomp str = some (trim isspace str) := by
  obtain ⟨a, b, hstr, ha, hb, hm⟩ := exists_trim isspace str
  generalize trim isspace str = m at hstr hm
  rcases hlen : m.length with _ | n
  · obtain rfl := List.eq_nil_of_length_eq_zero hlen
    refine pStrchomp_blank fun c hc => ?_
    rw [hstr, List.nil_append] at hc
    exact (List.mem_append.1 hc).elim (ha c) (hb c)
  · have hall : str.length = a.length + n + 1 + b.length := by
      rw [hstr, List.length_append, List.length_append, hlen]
      omega
    have hcast : ((str.length : ℕ) : ℤ) - 1 = ((a.length + n + b.length : ℕ) : ℤ) := by omega
    have hget : ∀ i, i ≤ n → str[a.length + i]? = m[i]? := by
      intro i hi
      rw [hstr, List.getElem?_append_right (Nat.le_add_right _ _), Nat.add_sub_cancel_left,
        List.getElem?_append_left (by omega)]
    have hfirst : ∃ c, str[a.length]? = some c ∧ isspace c = false := by
      refine ⟨m[0], ?_, hm.1 _ ?_⟩
      · exact (hget 0 (Nat.zero_le _)).trans (List.getElem?_eq_getElem (by omega))
      · rw [List.head?_eq_getElem?]
        exact List.getElem?_eq_getElem (by omega)
    have hgetLast : m.getLast? = m[n]? := by
      rw [List.getLast?_eq_getElem?, hlen]
      rfl
    have hlast : ∃ c, str[a.length + n]? = some c ∧ isspace c = false := by
      refine ⟨m[n], ?_, hm.2 _ ?_⟩
      · exact (hget n (Nat.le_refl _)).trans (List.getElem?_eq_getElem (by omega))
      · rw [hgetLast]
        exact List.getElem?_eq_getElem (by omega)
    have hbefore : ∀ i, i < a.length → ∃ c, str[i]? = some c ∧ isspace c := by
      intro i hi
      obtain ⟨c, hc, hi⟩ := (getElem?_around (m := m) (b := b) i).1 hi
      exact ⟨c, hstr ▸ hi, ha c hc⟩
    have hafter : ∀ i, a.length + n < i → i ≤ a.length + n + b.length → ∃ c, str[i]? = some c ∧ isspace c := by
      intro i hi hle
      obtain ⟨c, hc, hi⟩ := (getElem?_around (a := a) (m := m) (b := b) i).2 (by omega) (by rw [← hstr]; omega)
      exact ⟨c, hstr ▸ hi, hb c hc⟩
    have hstart : chompStart str (a.length + n + b.length : ℕ) (str.length + 1) 0 = some (a.length : ℤ) :=
      chompStart_eq (j := 0) (fun i _ => hbefore i) (Nat.zero_le _) (by omega) (.inr hfirst) (by omega)
    have hend : chompEnd str (str.length + 1) (a.length + n + b.length : ℕ) = some ((a.length + n : ℕ) : ℤ) :=
      chompEnd_eq hafter (by omega) (.inr hlast) (by omega)
    have htake : (str.drop a.length).take (n + 1) = m := by
      rw [hstr, List.drop_left, ← hlen, List.take_left]
    have hlen' : (((a.length + n : ℕ) : ℤ) - (a.length : ℕ) + 2 - 1).toNat = n + 1 := by omega
    rw [pStrchomp, hcast, hstart, Option.bind_eq_bind, Option.bind_some, hend, Option.bind_eq_bind,
      Option.bind_some,
      if_neg (by omega)]
    dsimp only
    rw [hlen', copyFrom_eq (by omega), htake]
    split
    · obtain ⟨c, hc, hblank⟩ := hlast
      rw [readAt_of_getElem? hc]
      show (if isspace c then _ else _) = _
      rw [hblank]
      rfl
    · rfl

/-- **`p_strchomp` removes the blanks around a string, and nothing else**: it reads the string only, and
    once is enough. -/
theorem pStrchomp_trims (str : CString) : ∃ before ret after, pStrchomp str = some ret ∧
    str = before ++ ret ++ after ∧
    (∀ c ∈ before, isspace c) ∧ (∀ c ∈ after, isspace c) ∧ (∀ c ∈ ret.head?, isspace c = false) ∧
    (∀ c ∈ ret.getLast?, isspace c = false) ∧ pStrchomp ret = some ret := by
  obtain ⟨before, after, hstr, hbefore, hafter, htrimmed⟩ := exists_trim isspace str
  refine ⟨before, trim isspace str, after, pStrchomp_eq str, ?_, hbefore, hafter, htrimmed.1, htrimmed.2, ?_⟩
  · rw [List.append_assoc]
    exact hstr
  · rw [pStrchomp_eq, trim_of_trimmed htrimmed]

end Plibsys
