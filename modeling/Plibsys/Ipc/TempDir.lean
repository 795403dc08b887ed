/-
  The directory of the key files, where it comes from the environment: `p_ipc_unix_get_temp_dir`
  (`pipc.c`) in builds without `P_tmpdir`.
-/
import Mathlib.Data.List.DropRight
import Plibsys.Lib.Checked
import Plibsys.Text.Strchomp

namespace Plibsys.Tmpdir

open Checked

def slash : UInt8 := ascii '/'

/-- `while (*(str + --len) == '/')`: where the loop stops.  The length 0 wraps around, and `str + len`
    is then the byte before the string. -/
def skipSlashes (str : List UInt8) : ℕ → ℤ → Option ℤ
  | 0, _ => none
  | fuel + 1, len => do
    let len := len - 1
    if (← getAt str len) = slash then skipSlashes str fuel len else return len

/-- The value of `TMPDIR`, or none; memory is allocated. -/
def pIpcUnixGetTempDir (tmp_env : Option CString) : Option CString := do
  let some tmp_env := tmp_env | return bytes "/tmp/"
  let str := tmp_env ++ [0]
  let len ← skipSlashes str (tmp_env.length + 1) tmp_env.length
  let len := len + 1
  let str ← setAt str len 0
  let ret := List.replicate (len + 2).toNat 0
  -- `strcpy (ret, str)` and `strcat (ret, "/")`
  let src ← readString 0 str 0
  let ret ← writeAt ret 0 (src ++ [0])
  let dst ← readString 0 ret 0
  let ret ← writeAt ret dst.length ([slash] ++ [0])
  readString 0 ret 0

variable {v m t : CString} {fuel : ℕ}

/-! ## The loop -/

/-- The loop stops behind the last byte that is not a slash. -/
theorem skipSlashes_eq {c : UInt8} (hlast : m.getLast? = some c) (hc : c ≠ slash) {j : ℕ}
    (hslashes : ∀ i < j, t[i]? = some slash) (hfuel : j < fuel) :
    skipSlashes (m ++ t) fuel ((m.length + j : ℕ) : ℤ) = some ((m.length : ℤ) - 1) := by
  have hpos : 0 < m.length := List.length_pos_of_mem (List.mem_of_getLast? hlast)
  induction j generalizing fuel with
  | zero =>
    obtain ⟨fuel, rfl⟩ := Nat.exists_eq_succ_of_ne_zero (Nat.ne_of_gt hfuel)
    have hread : getAt (m ++ t) ((m.length - 1 : ℕ) : ℤ) = some c := by
      rw [getAt_natCast, List.getElem?_append_left (by omega), ← List.getLast?_eq_getElem?, hlast]
    rw [skipSlashes, show ((m.length + 0 : ℕ) : ℤ) - 1 =
      ((m.length - 1 : ℕ) : ℤ) by omega, hread, Option.bind_eq_bind,
      Option.bind_some, if_neg hc]
    exact congrArg some (by omega)
  | succ j ih =>
    obtain ⟨fuel, rfl⟩ := Nat.exists_eq_succ_of_ne_zero (Nat.ne_of_gt (Nat.zero_lt_of_lt hfuel))
    have hread : getAt (m ++ t) ((m.length + j : ℕ) : ℤ) = some slash := by
      rw [getAt_natCast, List.getElem?_append_right (by omega), Nat.add_sub_cancel_left]
      exact hslashes j (Nat.lt_succ_self j)
    rw [skipSlashes, show ((m.length + (j + 1) : ℕ) : ℤ) - 1 = ((m.length + j : ℕ) : ℤ) by omega, hread,
      Option.bind_eq_bind, Option.bind_some, if_pos rfl]
    exact ih (fun i hi => hslashes i (Nat.lt_succ_of_lt hi)) (by omega)

/-- **Slashes only**: the byte before the string is read, whatever the bound on the iterations is. -/
theorem skipSlashes_outside (hv : ∀ c ∈ v, c = slash) {j : ℕ} (hj : j ≤ v.length) :
    skipSlashes (v ++ t) fuel j = none := by
  induction fuel generalizing j with
  | zero => rfl
  | succ fuel ih =>
    rw [skipSlashes]
    cases j with
    | zero => rw [getAt_of_neg (by decide), Option.bind_eq_bind, Option.bind_none]
    | succ j =>
      have hread : getAt (v ++ t) (j : ℤ) = some slash := by
        rw [getAt_natCast, List.getElem?_append_left hj, List.getElem?_eq_getElem hj]
        exact congrArg some (hv _ (List.getElem_mem hj))
      rw [show ((j + 1 : ℕ) : ℤ) - 1 = (j : ℤ) by omega, hread, Option.bind_eq_bind, Option.bind_some, if_pos rfl]
      exact ih (Nat.le_of_succ_le hj)

/-! ## The directory -/

/-- The buffer is cut where the slashes begin. -/
theorem setAt_end (ht : t ≠ []) : ∃ rest, setAt (m ++ t) m.length 0 = some (m ++ 0 :: rest) := by
  obtain ⟨x, rest, rfl⟩ := List.exists_cons_of_ne_nil ht
  refine ⟨rest, ?_⟩
  rw [setAt_natCast 0 (by rw [List.length_append, List.length_cons]; omega),
    List.set_append_right _ _ (Nat.le_refl _),
    Nat.sub_self, List.set_cons_zero]

theorem pIpcUnixGetTempDir_eq (hnul : 0 ∉ v) {c : UInt8} (hc : c ∈ v) (hne : c ≠ slash) :
    pIpcUnixGetTempDir (some v) = some (v.rdropWhile (· = slash) ++ [slash]) := by
  have hsplit : v = v.rdropWhile (· = slash) ++ v.rtakeWhile (· = slash) := List.rdropWhile_append_rtakeWhile.symm
  have hslashes : ∀ c ∈ v.rtakeWhile (· = slash),
    c = slash := fun c hc => by simpa using List.mem_rtakeWhile_imp hc
  have hnil : v.rdropWhile (· = slash) ≠ [] := by
    intro hnil
    exact hne (by simpa using List.rdropWhile_eq_nil_iff.1 hnil c hc)
  have hstop := List.rdropWhile_last_not (· = slash) v hnil
  generalize v.rdropWhile (· = slash) = m at hsplit hnil hstop
  generalize v.rtakeWhile (· = slash) = r at hsplit hslashes
  subst hsplit
  have hm : 0 ∉ m := fun h => hnul (List.mem_append_left r h)
  have hloop : skipSlashes (m ++ (r ++ [0])) (m.length + r.length + 1) ((m.length + r.length : ℕ) : ℤ) =
      some ((m.length : ℤ) - 1) := by
    refine skipSlashes_eq (List.getLast?_eq_some_getLast hnil) (by simpa using hstop) (fun i hi => ?_) ?_
    · rw [List.getElem?_append_left hi, List.getElem?_eq_getElem hi]
      exact congrArg some (hslashes _ (List.getElem_mem hi))
    · omega
  obtain ⟨rest, hset⟩ := setAt_end (m := m) (t := r ++ [0]) (by simp)
  have hlen : ((m.length : ℤ) + 2).toNat = m.length + 2 := by omega
  have hroom : m.length < (List.replicate (m.length + 2) (0 : UInt8)).length := by
    rw [List.length_replicate]
    omega
  obtain ⟨ret, hret, hretlen, hdst⟩ := writeString hm hroom
  have hslash : 0 ∉ [slash] := by decide
  obtain ⟨ret', hret', -, hresult⟩ := appendString hdst hslash
    (by rw [hretlen, List.length_replicate, List.length_singleton]; omega)
  rw [pIpcUnixGetTempDir]
  dsimp only
  rw [List.append_assoc, List.length_append]
  simp only [hloop, Option.bind_eq_bind, Option.bind_some, Int.sub_add_cancel, hset, readString_append hm,
    hlen, hret, hdst,
    hret', hresult]

/-- **The value is normalised**, with all accesses in the string, if and only if it does not consist of
    slashes only. -/
theorem pIpcUnixGetTempDir_iff (v : CString) (hnul : 0 ∉ v) :
    pIpcUnixGetTempDir (some v) = some (v.rdropWhile (· = slash) ++ [slash]) ↔ ∃ c ∈ v, c ≠ slash := by
  constructor
  · intro h
    by_contra hall
    have hv : ∀ c ∈ v, c = slash := fun c hc => by_contra fun hne => hall ⟨c, hc, hne⟩
    rw [pIpcUnixGetTempDir] at h
    dsimp only at h
    rw [skipSlashes_outside hv (Nat.le_refl _)] at h
    cases h
  · rintro ⟨c, hc, hne⟩
    exact pIpcUnixGetTempDir_eq hnul hc hne

theorem pIpcUnixGetTempDir_tmp : pIpcUnixGetTempDir (some (bytes "/tmp//")) = some (bytes "/tmp/") :=
  (pIpcUnixGetTempDir_iff (bytes "/tmp//") (by decide)).2 ⟨ascii 't', by decide, by decide⟩

/-- For the empty string and for the root directory, the byte before the string is read. -/
theorem pIpcUnixGetTempDir_root :
    pIpcUnixGetTempDir (some (bytes "")) = none ∧ getAt (bytes "" ++ [0]) (0 - 1) = none ∧
      pIpcUnixGetTempDir (some (bytes "/")) = none ∧
        (bytes "/").rdropWhile (· = slash) ++ [slash] = bytes "/" := by
  decide

end Plibsys.Tmpdir
