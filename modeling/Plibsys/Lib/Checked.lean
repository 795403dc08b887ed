/-
  Buffers of a fixed size whose accesses are checked: an access outside of the buffer fails.

  A string in a buffer ends before its terminator, and reading one whose terminator is missing
  leaves the buffer.
-/
import Mathlib.Data.Int.Notation
import Mathlib.Data.List.TakeWhile

namespace Checked

variable {α : Type}

/-- The element at a position. -/
def getAt (buf : List α) (pos : ℤ) : Option α := if pos < 0 then none else buf[pos.toNat]?

/-- The buffer with another element at a position. -/
def setAt (buf : List α) (pos : ℤ) (x : α) : Option (List α) :=
  if 0 ≤ pos ∧ pos.toNat < buf.length then some (buf.set pos.toNat x) else none

/-- The elements are written one after the other, from a position on. -/
def writeAt (buf : List α) (pos : ℤ) : List α → Option (List α)
  | [] => some buf
  | x :: xs => do
    let buf ← setAt buf pos x
    writeAt buf (pos + 1) xs

/-- The elements before the terminator. -/
def untilNul [DecidableEq α] (nul : α) : List α → Option (List α)
  | [] => none
  | x :: xs => if x = nul then some [] else (untilNul nul xs).map (x :: ·)

/-- The string that starts at a position. -/
def readString [DecidableEq α] (nul : α) (buf : List α) (pos : ℕ) : Option (List α) := untilNul nul (buf.drop pos)

variable {buf xs : List α} {pos : ℕ} {x : α}

/-! ## Single elements -/

theorem getAt_natCast (buf : List α) (pos : ℕ) : getAt buf pos = buf[pos]? := by
  rw [getAt, if_neg (by omega)]
  rfl

theorem getAt_of_neg {pos : ℤ} (h : pos < 0) : getAt buf pos = none := if_pos h

theorem setAt_natCast (x : α) (h : pos < buf.length) : setAt buf pos x = some (buf.set pos x) :=
  if_pos ⟨Int.natCast_nonneg pos, h⟩

/-! ## Consecutive elements -/

/-- **Writing inside of the buffer** replaces a part of it. -/
theorem writeAt_eq (h : pos + xs.length ≤ buf.length) :
    writeAt buf pos xs = some (buf.take pos ++ xs ++ buf.drop (pos + xs.length)) := by
  induction xs generalizing buf pos with
  | nil => rw [writeAt, List.length_nil, Nat.add_zero, List.append_nil, List.take_append_drop]
  | cons x xs ih =>
    rw [List.length_cons] at h
    have hpos : pos < buf.length := by omega
    have hnext := @ih (buf.set pos x) (pos + 1) (by rw [List.length_set]; omega)
    rw [writeAt, setAt_natCast x hpos, Option.bind_eq_bind, Option.bind_some]
    refine hnext.trans (congrArg some ?_)
    rw [List.drop_set_of_lt (by omega), List.take_set, List.take_succ_eq_append_getElem hpos,
      List.set_append_right _ _ (by rw [List.length_take]; omega), List.length_take_of_le (by omega), Nat.sub_self,
      List.length_cons, Nat.add_assoc, Nat.add_comm 1]
    simp only [List.set_cons_zero, List.append_assoc, List.cons_append, List.nil_append]

theorem length_setAt {buf' : List α} {pos : ℤ} (h : setAt buf pos x = some buf') : buf'.length = buf.length := by
  rw [setAt] at h
  split at h
  · rw [← Option.some.inj h, List.length_set]
  · cases h

/-- Writing keeps the size. -/
theorem length_writeAt {buf' : List α} {pos : ℤ} (h : writeAt buf pos xs = some buf') :
    buf'.length = buf.length := by
  induction xs generalizing buf pos with
  | nil => rw [← Option.some.inj h]
  | cons x xs ih =>
    obtain ⟨buf1, hset, hrest⟩ := Option.bind_eq_some_iff.1 h
    rw [ih hrest, length_setAt hset]

/-! ## Buffers of a fixed size -/

/-- A buffer of `n` elements. -/
structure Buffer (α : Type) (n : ℕ) where
  elems : List α
  length_elems : elems.length = n

namespace Buffer

variable {n : ℕ}

/-- Writing keeps the size. -/
def write (buf : Buffer α n) (pos : ℤ) (xs : List α) : Option (Buffer α n) :=
  (writeAt buf.elems pos xs).pmap Buffer.mk fun _ h => (length_writeAt h).trans buf.length_elems

theorem write_eq (buf : Buffer α n) (h : pos + xs.length ≤ n) : ∃ buf', buf.write pos xs = some buf' ∧
    buf'.elems = buf.elems.take pos ++ xs ++ buf.elems.drop (pos + xs.length) := by
  have hwrite : writeAt buf.elems pos xs = _ := writeAt_eq (h.trans_eq buf.length_elems.symm)
  have hlen := (length_writeAt hwrite).trans buf.length_elems
  exact ⟨⟨_, hlen⟩, Option.pmap_eq_some_iff.2 ⟨_, hlen, hwrite, rfl⟩, rfl⟩

/-- The buffer is filled. -/
theorem write_all (buf : Buffer α n) (h : xs.length = n) :
    ∃ buf', buf.write 0 xs = some buf' ∧ buf'.elems = xs := by
  have hfits : 0 + xs.length ≤ n := by omega
  obtain ⟨buf', hwrite, helems⟩ := buf.write_eq hfits
  refine ⟨buf', hwrite, ?_⟩
  rw [helems, List.take_zero, List.nil_append, List.drop_eq_nil_of_le (by rw [buf.length_elems]; omega),
    List.append_nil]

end Buffer

/-! ## Strings -/

variable [DecidableEq α] {nul : α} {s t : List α}

theorem untilNul_append (h : nul ∉ s) : untilNul nul (s ++ nul :: t) = some s := by
  induction s with
  | nil => rw [List.nil_append, untilNul, if_pos rfl]
  | cons x s ih =>
    rw [List.mem_cons, not_or] at h
    rw [List.cons_append, untilNul, if_neg (Ne.symm h.1), ih h.2]
    rfl

/-- There is a string wherever a terminator follows. -/
theorem untilNul_of_mem (h : nul ∈ xs) : untilNul nul xs = some (xs.takeWhile (· ≠ nul)) := by
  induction xs with
  | nil => cases h
  | cons x xs ih =>
    by_cases hx : x = nul
    · rw [untilNul, if_pos hx, List.takeWhile_cons_of_neg (by simpa using hx)]
    · have hmem : nul ∈ xs := (List.mem_cons.1 h).resolve_left (Ne.symm hx)
      rw [untilNul, if_neg hx, ih hmem, List.takeWhile_cons_of_pos (by simpa using hx)]
      rfl

/-- What is read is a string, and its terminator follows. -/
theorem exists_of_untilNul (h : untilNul nul xs = some s) : nul ∉ s ∧ ∃ t, xs = s ++ nul :: t := by
  induction xs generalizing s with
  | nil => cases h
  | cons x xs ih =>
    rw [untilNul] at h
    split at h
    · rename_i hx
      cases h
      exact ⟨List.not_mem_nil, xs, by rw [hx, List.nil_append]⟩
    · rename_i hx
      obtain ⟨s', hs', rfl⟩ := Option.map_eq_some_iff.1 h
      obtain ⟨hnot, t, rfl⟩ := ih hs'
      refine ⟨fun hmem => ?_, t, rfl⟩
      exact (List.mem_cons.1 hmem).elim (fun h0 => hx h0.symm) hnot

/-- A string that was written is read. -/
theorem readString_append (h : nul ∉ s) : readString nul (s ++ nul :: t) 0 = some s := untilNul_append h

/-- A string of length `n` fits into a buffer of size `n + 1`. -/
theorem writeString (hs : nul ∉ s) (hfit : s.length < buf.length) :
    ∃ buf', writeAt buf 0 (s ++ [nul]) = some buf' ∧
    buf'.length = buf.length ∧ readString nul buf' 0 = some s := by
  have hlen : 0 + (s ++ [nul]).length ≤ buf.length := by
    rw [List.length_append, List.length_singleton]
    omega
  refine ⟨_, writeAt_eq hlen, length_writeAt (writeAt_eq hlen), ?_⟩
  rw [List.take_zero, List.nil_append, List.append_assoc, List.singleton_append]
  exact readString_append hs

/-- A string is appended to the one in the buffer. -/
theorem appendString (hbuf : readString nul buf 0 = some s) (ht : nul ∉ t)
    (hfit : s.length + t.length < buf.length) :
    ∃ buf', writeAt buf s.length (t ++ [nul]) = some buf' ∧ buf'.length = buf.length ∧
      readString nul buf' 0 = some (s ++ t) := by
  obtain ⟨hs, rest, hrest⟩ := exists_of_untilNul hbuf
  have hlen : s.length + (t ++ [nul]).length ≤ buf.length := by
    rw [List.length_append, List.length_singleton]
    omega
  have htake : buf.take s.length = s := by
    rw [List.drop_zero] at hrest
    rw [hrest, List.take_left]
  have hnot : nul ∉ s ++ t := fun hmem => (List.mem_append.1 hmem).elim hs ht
  refine ⟨_, writeAt_eq hlen, length_writeAt (writeAt_eq hlen), ?_⟩
  rw [htake, ← List.append_assoc, List.append_assoc (s ++ t), List.singleton_append]
  exact readString_append hnot

namespace Buffer

variable {n : ℕ}

/-- A string that fits is stored. -/
theorem write_string (buf : Buffer α n) (hs : nul ∉ s) (hfit : s.length < n) :
    ∃ buf', buf.write 0 (s ++ [nul]) = some buf' ∧ readString nul buf'.elems 0 = some s := by
  have hlen : 0 + (s ++ [nul]).length ≤ n := by
    rw [List.length_append, List.length_singleton]
    omega
  obtain ⟨buf', hwrite, helems⟩ := buf.write_eq hlen
  refine ⟨buf', hwrite, ?_⟩
  rw [helems, List.take_zero, List.nil_append, List.append_assoc, List.singleton_append]
  exact readString_append hs

/-- A string in a buffer fits. -/
theorem length_of_readString (buf : Buffer α n) (h : readString nul buf.elems 0 = some s) :
    s.length < n ∧ nul ∉ s := by
  obtain ⟨hs, t, helems⟩ := exists_of_untilNul h
  have hlen := congrArg List.length helems
  rw [List.drop_zero, buf.length_elems, List.length_append, List.length_cons] at hlen
  exact ⟨by omega, hs⟩

end Buffer

end Checked
